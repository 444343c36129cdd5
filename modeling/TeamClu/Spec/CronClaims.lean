import Mathlib.Data.List.Nodup
import Mathlib.Data.List.Perm.Basic
import TeamClu.Native.CronRunner

/-!
# Each due occurrence is claimed once

A claim replaces the value of a row that it was read with, and what it writes is after the tick's clock,
which is not before that value.  So the value of a row only moves forward (`Advances`), no value comes
round again, and of all workers of all ticks at most one claims it (`ticks_safe`).

A row is set to null when the schedule is not valid, or when no day of the horizon has a next run.  Where every
schedule that has a next run has one within the horizon, null says that there is none; the 29th of February of 2096 is
further from the next one (`parked_leapDay`).
-/

namespace TeamClu.AppCron

variable {zones : Str → Option Zone}

/-! ## Next runs -/

/-- A next run: a minute of a day `offset` days after the clock's, later than the clock on the wall, whose instant is
    after the clock. -/
structure Occurrence (fields : CronFields) (tz : Zone) (now : Int) (offset : Nat) (hour minute t : Int) : Prop where
  day : dayMatches fields (dayAfter (wallClockAt now tz) offset) = true
  hourField : hasNum fields.hour hour = true
  minuteField : hasNum fields.minute minute = true
  later : offset ≠ 0 ∨ (wallClockAt now tz).hour < hour ∨
    (wallClockAt now tz).hour = hour ∧ (wallClockAt now tz).minute < minute
  instant : wallClockToInstant (dayAfter (wallClockAt now tz) offset).year (dayAfter (wallClockAt now tz) offset).month
    (dayAfter (wallClockAt now tz) offset).day hour minute tz = some t
  after : now < t

/-- The schedule of a job is valid. -/
structure Valid (zones : Str → Option Zone) (job : JobRow) (zone : Zone) (fields : CronFields) : Prop where
  timezone : Str.jsTrim job.timezone ≠ []
  zone : zones job.timezone = some zone
  fields : parseCronExpression job.scheduleExpr = .ok fields

/-- The schedule of a job is not valid, or has no next run on some of the days to come. -/
def NoNextRun (zones : Str → Option Zone) (job : JobRow) (now : Int) (days : Nat → Prop) : Prop :=
  ∀ zone fields, Valid zones job zone fields → ∀ offset, days offset → ∀ hour minute t,
    ¬ Occurrence fields zone now offset hour minute t

/-- A schedule that has a next run has one within the horizon of the search. -/
def WithinHorizon (zones : Str → Option Zone) (job : JobRow) (now : Int) : Prop :=
  NoNextRun zones job now (· < MAX_DAYS_AHEAD) → NoNextRun zones job now fun _ => True

private theorem mem_sortedNumbers {values : List CronValue} {n : Int} :
    n ∈ sortedNumbers values ↔ hasNum values n = true := by
  rw [sortedNumbers, List.mem_mergeSort, List.mem_filterMap, hasNum, Bool.and_eq_true, decide_eq_true_eq,
    List.contains_iff_mem]
  constructor
  · rintro ⟨v, hv, hn⟩
    cases v with
    | num m =>
      obtain rfl : (m : Int) = n := Option.some.inj hn
      exact ⟨Int.natCast_nonneg m, by simpa using hv⟩
    | inherited what => cases hn
  · rintro ⟨hpos, hmem⟩
    exact ⟨_, hmem, by simp [Int.toNat_of_nonneg hpos]⟩

/-- The search gives up when no day of the horizon has a next run. -/
theorem nextRunAfter_eq_none {fields : CronFields} {tz : Zone} {now : Int} :
    nextRunAfter fields tz now = none ↔ ∀ offset, offset < MAX_DAYS_AHEAD → ∀ hour minute t,
      ¬ Occurrence fields tz now offset hour minute t := by
  rw [nextRunAfter, List.findSome?_eq_none_iff]
  constructor
  · intro h offset hoffset hour minute t hocc
    have hday := h offset (List.mem_range.mpr hoffset)
    rw [tryDay] at hday
    simp only [hocc.day, Bool.not_true, Bool.false_eq_true, if_false] at hday
    have hhour := List.findSome?_eq_none_iff.mp hday hour (mem_sortedNumbers.mpr hocc.hourField)
    rw [if_neg (by rcases hocc.later with h | h | h <;> omega)] at hhour
    have hminute := List.findSome?_eq_none_iff.mp hhour minute (mem_sortedNumbers.mpr hocc.minuteField)
    rw [tryMinute, if_neg (by rcases hocc.later with h | h | h <;> omega), hocc.instant, Option.filter_some,
      if_pos (by simpa using hocc.after)] at hminute
    cases hminute
  · intro h offset hoffset
    rw [tryDay]
    split
    · rfl
    · next hday =>
      refine List.findSome?_eq_none_iff.mpr fun hour hhour => ?_
      split
      · rfl
      · next hlate =>
        refine List.findSome?_eq_none_iff.mpr fun minute hminute => ?_
        rw [tryMinute]
        split
        · rfl
        · next hlater =>
          refine Option.filter_eq_none_iff.mpr fun t ht => ?_
          simp only [decide_eq_true_eq]
          intro hafter
          refine h offset (List.mem_range.mp hoffset) hour minute t
            ⟨by simpa using hday, mem_sortedNumbers.mp hhour, mem_sortedNumbers.mp hminute, ?_, ht, hafter⟩
          -- on the first day the hours and minutes that are over are passed by
          by_cases hzero : offset = 0
          · rcases lt_trichotomy hour (wallClockAt now tz).hour with hlt | heq | hgt
            · exact absurd ⟨hzero, hlt⟩ hlate
            · exact .inr (.inr ⟨heq.symm, by omega⟩)
            · exact .inr (.inl hgt)
          · exact .inl hzero

/-- A row is set to null when there is no next run within the horizon. -/
private theorem nextOrNull_eq_none {job : JobRow} {now : Int} (h : nextOrNull zones job now = none) :
    NoNextRun zones job now (· < MAX_DAYS_AHEAD) := by
  intro zone fields hvalid
  rw [nextOrNull, nextOf, computeNextRun, if_neg hvalid.timezone, hvalid.zone] at h
  simp only [hvalid.fields] at h
  exact nextRunAfter_eq_none.mp h

/-! ## The invariant -/

/-- What a worker relies on: a job it claims is one it took, and a job it won is in the claims and has
    not been sent. -/
def WorkerInv (claims sends : List Claim) (i : Nat) (tick : Tick) (w : Nat) : Worker → Prop
  | .claiming job => job ∈ tick.jobs ∧ (w, job.id) ∈ tick.taken
  | .answered job true | .executing job =>
    let claim : Claim := { tick := i, worker := w, job := job.id, value := job.nextRunAt }
    claim ∈ claims ∧ claim ∉ sends
  | _ => True

/-- What holds of one tick. -/
structure TickInv (claims sends : List Claim) (rows : List CronRow) (i : Nat) (tick : Tick) : Prop where
  unselected : tick.selected = false → tick.cursor = 0 ∧ tick.taken = [] ∧ tick.workers = []
  due : ∀ job ∈ tick.jobs, job.nextRunAt ≤ tick.now
  ids : (tick.jobs.map (·.id)).Nodup
  taken : tick.taken.map (·.2) = (tick.jobs.take tick.cursor).map (·.id)
  /-- A job of the snapshot was claimed, or its row is as it was. -/
  claimedOrDue : ∀ job ∈ tick.jobs, (∃ c ∈ claims, c.job = job.id ∧ c.value = job.nextRunAt) ∨
    ∃ row ∈ rows, row.id = job.id ∧ row.enabled = true ∧ row.nextRunAt = some job.nextRunAt
  workers : ∀ w worker, tick.workers[w]? = some worker → WorkerInv claims sends i tick w worker

/-- What holds in every state. -/
structure CronInv (s : CronSystem) : Prop where
  /-- A value that was claimed is before the value of its row. -/
  passed : ∀ c ∈ s.claims, ∀ row ∈ s.table.rows, row.id = c.job →
    ∀ v, row.nextRunAt = some v → c.value < v
  once : (s.claims.map fun c => (c.job, c.value)).Nodup
  sentOnce : s.sends.Nodup
  sentClaimed : ∀ c ∈ s.sends, c ∈ s.claims
  ticks : ∀ i tick, s.ticks[i]? = some tick → TickInv s.claims s.sends s.table.rows i tick
  claimTaken : ∀ c ∈ s.claims, ∃ tick, s.ticks[c.tick]? = some tick ∧ (c.worker, c.job) ∈ tick.taken

/-! ## Steps of one tick -/

/-- A tick with one worker in another state. -/
private theorem TickInv.setWorker {claims sends : List Claim} {rows : List CronRow} {i w : Nat}
    {tick : Tick} {worker : Worker} (h : TickInv claims sends rows i tick)
    (hworker : WorkerInv claims sends i tick w worker) :
    TickInv claims sends rows i (tick.setWorker w worker) := by
  refine ⟨fun hselected => ?_, h.due, h.ids, h.taken, h.claimedOrDue, fun w' worker' hw' => ?_⟩
  · obtain ⟨hcursor, htaken, hworkers⟩ := h.unselected hselected
    exact ⟨hcursor, htaken, by simp [Tick.setWorker, hworkers]⟩
  simp only [Tick.setWorker, List.getElem?_set] at hw'
  split at hw'
  · next heq =>
    split at hw'
    · obtain rfl := Option.some.inj hw'
      subst heq
      cases worker with
      | answered job matched => cases matched <;> exact hworker
      | _ => exact hworker
    · cases hw'
  · have := h.workers w' worker' hw'
    cases worker' with
    | answered job matched => cases matched <;> exact this
    | _ => exact this

/-- What holds of the tick that is set and of the other ones holds of all. -/
private theorem forall_set {ticks : List Tick} {i : Nat} {tick' : Tick} {P : Nat → Tick → Prop}
    (htick : P i tick') (hothers : ∀ j tick, ticks[j]? = some tick → P j tick) :
    ∀ j tick, (ticks.set i tick')[j]? = some tick → P j tick := by
  intro j tick hj
  rw [List.getElem?_set] at hj
  split at hj
  · next heq =>
    split at hj
    · obtain rfl := Option.some.inj hj
      exact heq ▸ htick
    · cases hj
  · exact hothers j tick hj

/-- Setting a tick forgets nothing that was taken. -/
private theorem claimTaken_set {ticks : List Tick} {i : Nat} {tick tick' : Tick}
    (hi : ticks[i]? = some tick) (htaken : tick.taken ⊆ tick'.taken) {c : Claim}
    (hc : ∃ other, ticks[c.tick]? = some other ∧ (c.worker, c.job) ∈ other.taken) :
    ∃ other, (ticks.set i tick')[c.tick]? = some other ∧ (c.worker, c.job) ∈ other.taken := by
  obtain ⟨other, hother, hmem⟩ := hc
  by_cases heq : i = c.tick
  · subst heq
    rw [hi] at hother
    obtain rfl := Option.some.inj hother
    exact ⟨tick', by simp [(List.getElem?_eq_some_iff.mp hi).1], htaken hmem⟩
  · exact ⟨other, by simp [heq, hother], hmem⟩

/-- The system with one tick in another state. -/
private theorem CronInv.setTick {s : CronSystem} {i : Nat} {tick tick' : Tick} (h : CronInv s)
    (hi : s.ticks[i]? = some tick) (htick : TickInv s.claims s.sends s.table.rows i tick')
    (htaken : tick.taken ⊆ tick'.taken) : CronInv (s.setTick i tick') := by
  exact ⟨h.passed, h.once, h.sentOnce, h.sentClaimed, forall_set htick h.ticks,
    fun c hc => claimTaken_set hi htaken (h.claimTaken c hc)⟩

/-- The worker and its tick. -/
private theorem worker_eq_some {s : CronSystem} {i w : Nat} {tick : Tick} {worker : Worker}
    (h : s.worker i w = some (tick, worker)) :
    s.ticks[i]? = some tick ∧ tick.workers[w]? = some worker := by
  obtain ⟨tick', htick, hmap⟩ := Option.bind_eq_some_iff.mp h
  obtain ⟨worker', hworker, heq⟩ := Option.map_eq_some_iff.mp hmap
  obtain ⟨rfl, rfl⟩ := Prod.mk.inj heq
  exact ⟨htick, hworker⟩

/-- A step that only changes a worker. -/
private theorem CronInv.setWorker {s : CronSystem} {i w : Nat} {tick : Tick} {worker : Worker}
    (h : CronInv s) (hi : s.ticks[i]? = some tick)
    (hworker : WorkerInv s.claims s.sends i tick w worker) :
    CronInv (s.setTick i (tick.setWorker w worker)) :=
  h.setTick hi ((h.ticks i tick hi).setWorker hworker) (List.Subset.refl _)

/-! ## The query -/

private theorem mem_selectDue {table : JobTable} {now : Int} {limit : Nat} {job : JobRow}
    (h : job ∈ table.selectDue now limit) : ∃ row ∈ table.rows, row.id = job.id ∧
      row.enabled = true ∧ row.nextRunAt = some job.nextRunAt ∧ job.nextRunAt ≤ now := by
  have hmem := List.mem_of_mem_take h
  rw [List.mem_mergeSort, List.mem_filterMap] at hmem
  obtain ⟨row, hrow, hjob⟩ := hmem
  rw [List.mem_filter] at hrow
  obtain ⟨hrow, hdue⟩ := hrow
  obtain ⟨v, hv, rfl⟩ := Option.map_eq_some_iff.mp hjob
  simp only [CronRow.isDue, hv, Bool.and_eq_true, decide_eq_true_eq] at hdue
  exact ⟨row, hrow, rfl, hdue.1, hv, hdue.2⟩

private theorem ids_filterMap_toJob (rows : List CronRow) :
    ((rows.filterMap CronRow.toJob).map (·.id)).Sublist (rows.map (·.id)) := by
  induction rows with
  | nil => exact List.Sublist.refl _
  | cons row rows ih =>
    cases hv : row.nextRunAt with
    | none =>
      rw [List.filterMap_cons_none (by simp [CronRow.toJob, hv])]
      exact ih.cons _
    | some v =>
      rw [List.filterMap_cons_some (by simp only [CronRow.toJob, hv, Option.map_some]; rfl)]
      exact ih.cons_cons _

/-- The jobs of a snapshot are different. -/
private theorem nodup_selectDue (table : JobTable) (now : Int) (limit : Nat) :
    ((table.selectDue now limit).map (·.id)).Nodup := by
  have hrows : ((table.rows.filter (·.isDue now)).map (·.id)).Nodup :=
    table.nodup.sublist (List.filter_sublist.map _)
  have hjobs := hrows.sublist (ids_filterMap_toJob _)
  refine List.Nodup.sublist ((List.take_sublist _ _).map _) ?_
  exact ((List.mergeSort_perm _ _).map _).nodup_iff.mpr hjobs

/-! ## Claims and requests -/

/-- A tick when claims, requests and rows have changed. -/
private theorem TickInv.after {claims claims' sends sends' : List Claim} {rows rows' : List CronRow}
    {i : Nat} {tick : Tick} (h : TickInv claims sends rows i tick) (hclaims : claims ⊆ claims')
    (hrows : ∀ row ∈ rows, row ∈ rows' ∨ ∃ c ∈ claims', c.job = row.id ∧ row.nextRunAt = some c.value)
    (hworkers : ∀ w worker, tick.workers[w]? = some worker →
      WorkerInv claims sends i tick w worker → WorkerInv claims' sends' i tick w worker) :
    TickInv claims' sends' rows' i tick := by
  refine ⟨h.unselected, h.due, h.ids, h.taken, fun job hjob => ?_, fun w worker hw =>
    hworkers w worker hw (h.workers w worker hw)⟩
  rcases h.claimedOrDue job hjob with ⟨c, hc, heq⟩ | ⟨row, hrow, hid, henabled, hnext⟩
  · exact Or.inl ⟨c, hclaims hc, heq⟩
  · rcases hrows row hrow with hrow' | ⟨c, hc, hjob', hvalue⟩
    · exact Or.inr ⟨row, hrow', hid, henabled, hnext⟩
    · rw [hnext, Option.some.injEq] at hvalue
      exact Or.inl ⟨c, hc, hjob'.trans hid, hvalue.symm⟩

/-- What a claim writes is after the clock of its tick. -/
private theorem next_gt {job : JobRow} {now v : Int} (h : nextOrNull zones job now = some v) : now < v := by
  unfold nextOrNull at h
  split at h
  · next hnext => exact computeNextRun_gt (hnext.trans (congrArg Except.ok h))
  · cases h

/-- A row that a claim matches is the row of its job. -/
private theorem matchesRow_iff {job : JobRow} {row : CronRow} :
    job.matchesRow row = true ↔ row.id = job.id ∧ row.nextRunAt = some job.nextRunAt := by
  simp [JobRow.matchesRow]

/-- The rows of the table have different keys. -/
private theorem JobTable.eq_of_id {table : JobTable} {row row' : CronRow} (hrow : row ∈ table.rows)
    (hrow' : row' ∈ table.rows) (h : row.id = row'.id) : row = row' :=
  List.inj_on_of_nodup_map table.nodup hrow hrow' h

/-- The invariant after the update of a worker. -/
private theorem CronInv.update {s : CronSystem} {i w : Nat} {tick : Tick} {job : JobRow}
    {next : Option Int} {worker : Worker} (h : CronInv s) (hi : s.ticks[i]? = some tick)
    (hw : tick.workers[w]? = some (.claiming job)) (hnext : ∀ v, next = some v → tick.now < v)
    (hworker : worker = .answered job (s.table.rows.any job.matchesRow) ∨ worker = .stopped) :
    CronInv { s.setTick i (tick.setWorker w worker) with
      table := s.table.update job next tick.now
      claims := if s.table.rows.any job.matchesRow then
          s.claims ++ [{ tick := i, worker := w, job := job.id, value := job.nextRunAt }]
        else s.claims } := by
  have htick := h.ticks i tick hi
  obtain ⟨hjob, htaken⟩ := htick.workers w _ hw
  have hdue := htick.due job hjob
  have hmem : ∀ {row}, row ∈ (s.table.update job next tick.now).rows →
      ∃ row₀ ∈ s.table.rows, job.updateRow next tick.now row₀ = row := fun hrow => List.mem_map.mp hrow
  cases hmatched : s.table.rows.any job.matchesRow with
  | false =>
    -- nothing is updated
    have hnone : ∀ row ∈ s.table.rows, job.updateRow next tick.now row = row := by
      intro row hrow
      have hno := List.any_eq_false.mp hmatched row hrow
      exact if_neg hno
    have hrows : (s.table.update job next tick.now).rows = s.table.rows :=
      (List.map_congr_left hnone).trans (List.map_id _)
    have hworkerInv : WorkerInv s.claims s.sends i tick w worker := by
      rw [hmatched] at hworker
      rcases hworker with rfl | rfl <;> exact trivial
    have hset := h.setWorker hi hworkerInv
    refine ⟨fun c hc row hrow => ?_, hset.once, hset.sentOnce, hset.sentClaimed, ?_, hset.claimTaken⟩
    · rw [hrows] at hrow
      exact h.passed c hc row hrow
    · intro j other hj
      rw [show (s.table.update job next tick.now).rows = s.table.rows from hrows]
      exact hset.ticks j other hj
  | true =>
    obtain ⟨found, hfound, hmatch⟩ := List.any_eq_true.mp hmatched
    obtain ⟨hfoundId, hfoundNext⟩ := matchesRow_iff.mp hmatch
    let claim : Claim := { tick := i, worker := w, job := job.id, value := job.nextRunAt }
    -- nobody claimed this value before
    have hnew : ∀ c ∈ s.claims, ¬ (c.job = job.id ∧ c.value = job.nextRunAt) := by
      rintro c hc ⟨hcJob, hcValue⟩
      have := h.passed c hc found hfound (hfoundId.trans hcJob.symm) _ hfoundNext
      omega
    have hnotSent : claim ∉ s.sends := fun hsent => hnew claim (h.sentClaimed claim hsent) ⟨rfl, rfl⟩
    have hclaims : s.claims ⊆ s.claims ++ [claim] := List.subset_append_left _ _
    have hrows : ∀ row ∈ s.table.rows, row ∈ (s.table.update job next tick.now).rows ∨
        ∃ c ∈ s.claims ++ [claim], c.job = row.id ∧ row.nextRunAt = some c.value := by
      intro row hrow
      by_cases hm : job.matchesRow row = true
      · obtain ⟨hid, hvalue⟩ := matchesRow_iff.mp hm
        exact Or.inr ⟨claim, by simp, hid.symm, hvalue⟩
      · exact Or.inl (List.mem_map.mpr ⟨row, hrow, if_neg hm⟩)
    have hgrow : ∀ {j : Nat} {other : Tick} (w' : Nat) (worker' : Worker),
        WorkerInv s.claims s.sends j other w' worker' →
        WorkerInv (s.claims ++ [claim]) s.sends j other w' worker' := by
      intro j other w' worker' hinv
      match worker', hinv with
      | .idle, _ | .stopped, _ | .answered _ false, _ => exact trivial
      | .claiming _, hinv => exact hinv
      | .answered _ true, hinv => exact ⟨hclaims hinv.1, hinv.2⟩
      | .executing _, hinv => exact ⟨hclaims hinv.1, hinv.2⟩
    have hafter : ∀ j other, s.ticks[j]? = some other →
        TickInv (s.claims ++ [claim]) s.sends (s.table.update job next tick.now).rows j other :=
      fun j other hj => (h.ticks j other hj).after hclaims hrows fun w' worker' _ => hgrow w' worker'
    have hworkerInv : WorkerInv (s.claims ++ [claim]) s.sends i tick w worker := by
      rw [hmatched] at hworker
      rcases hworker with rfl | rfl
      · exact ⟨by simp [claim], hnotSent⟩
      · exact trivial
    rw [if_pos rfl]
    refine ⟨fun c hc row hrow hid v hv => ?_, ?_, h.sentOnce,
      fun c hc => hclaims (h.sentClaimed c hc), forall_set ((hafter i tick hi).setWorker hworkerInv) hafter,
      fun c hc => ?_⟩
    · obtain ⟨row₀, hrow₀, rfl⟩ := hmem hrow
      rw [JobRow.updateRow_id] at hid
      by_cases hm : job.matchesRow row₀ = true
      · -- the row that was set
        obtain ⟨hid₀, hvalue₀⟩ := matchesRow_iff.mp hm
        rw [JobRow.updateRow, if_pos hm] at hv
        have hafterNow := hnext v hv
        rcases List.mem_append.mp hc with hc | hc
        · have := h.passed c hc row₀ hrow₀ hid _ hvalue₀
          omega
        · rw [List.mem_singleton.mp hc]
          show job.nextRunAt < v
          omega
      · rw [JobRow.updateRow, if_neg hm] at hv
        rcases List.mem_append.mp hc with hc | hc
        · exact h.passed c hc row₀ hrow₀ hid v hv
        · -- the row of the job is the one that was found
          rw [List.mem_singleton.mp hc] at hid
          obtain rfl := JobTable.eq_of_id hrow₀ hfound (hid.trans hfoundId.symm)
          exact absurd hmatch hm
    · rw [List.map_append, List.nodup_append]
      refine ⟨h.once, by simp, ?_⟩
      rintro x hx y hy rfl
      obtain ⟨c, hc, hcx⟩ := List.mem_map.mp hx
      rw [List.map_singleton, List.mem_singleton] at hy
      rw [← hcx] at hy
      obtain ⟨hcJob, hcValue⟩ := Prod.mk.inj hy
      exact hnew c hc ⟨hcJob, hcValue⟩
    · have htakenAfter := @claimTaken_set s.ticks i tick (tick.setWorker w worker) hi
        (List.Subset.refl _) c
      rcases List.mem_append.mp hc with hc | hc
      · exact htakenAfter (h.claimTaken c hc)
      · rw [List.mem_singleton.mp hc] at htakenAfter ⊢
        exact htakenAfter ⟨tick, hi, htaken⟩

/-- The invariant after a worker executed its job. -/
private theorem CronInv.execute {s : CronSystem} {i w : Nat} {tick : Tick} {job : JobRow}
    {worker : Worker} (h : CronInv s) (hi : s.ticks[i]? = some tick)
    (hw : tick.workers[w]? = some (.executing job)) (hworker : worker = .idle ∨ worker = .stopped)
    (sent : Bool) :
    CronInv { s.setTick i (tick.setWorker w worker) with
      sends := if sent then
          s.sends ++ [{ tick := i, worker := w, job := job.id, value := job.nextRunAt }]
        else s.sends } := by
  have htick := h.ticks i tick hi
  obtain ⟨hclaimed, hnotSent⟩ := htick.workers w _ hw
  have hworkerInv : ∀ claims sends, WorkerInv claims sends i tick w worker := by
    intro claims sends
    rcases hworker with rfl | rfl <;> exact trivial
  have hset := h.setWorker hi (hworkerInv _ _)
  cases sent with
  | false => exact hset
  | true =>
    let claim : Claim := { tick := i, worker := w, job := job.id, value := job.nextRunAt }
    have hother : ∀ {j : Nat} {other : Tick} (w' : Nat) (worker' : Worker), ¬ (j = i ∧ w' = w) →
        WorkerInv s.claims s.sends j other w' worker' →
        WorkerInv s.claims (s.sends ++ [claim]) j other w' worker' := by
      intro j other w' worker' hne hinv
      have hsends : ∀ job' : JobRow, (⟨j, w', job'.id, job'.nextRunAt⟩ : Claim) ∉ s.sends →
          (⟨j, w', job'.id, job'.nextRunAt⟩ : Claim) ∉ s.sends ++ [claim] := by
        intro job' hno hmem
        rcases List.mem_append.mp hmem with hmem | hmem
        · exact hno hmem
        · obtain ⟨rfl, rfl, -⟩ := Claim.mk.inj (List.mem_singleton.mp hmem)
          exact hne ⟨rfl, rfl⟩
      match worker', hinv with
      | .idle, _ | .stopped, _ | .answered _ false, _ => exact trivial
      | .claiming _, hinv => exact hinv
      | .answered job' true, hinv => exact ⟨hinv.1, hsends job' hinv.2⟩
      | .executing job', hinv => exact ⟨hinv.1, hsends job' hinv.2⟩
    refine ⟨h.passed, h.once, ?_, fun c hc => ?_, fun j other hj => ?_, hset.claimTaken⟩
    · exact List.nodup_append.mpr ⟨h.sentOnce, by simp, fun x hx y hy heq =>
        hnotSent (by rw [← List.mem_singleton.mp hy, ← heq]; exact hx)⟩
    · rcases List.mem_append.mp hc with hc | hc
      · exact h.sentClaimed c hc
      · rw [List.mem_singleton.mp hc]
        exact hclaimed
    · refine (hset.ticks j other hj).after (List.Subset.refl _) (fun row hrow => Or.inl hrow)
        fun w' worker' hw' hinv => ?_
      by_cases hsame : j = i ∧ w' = w
      · -- the worker itself holds nothing any more
        obtain ⟨rfl, rfl⟩ := hsame
        have hj' : (s.ticks.set j (tick.setWorker w' worker))[j]? = some other := hj
        rw [List.getElem?_set_self (List.getElem?_eq_some_iff.mp hi).1, Option.some.injEq] at hj'
        rw [← hj', Tick.setWorker,
          List.getElem?_set_self (List.getElem?_eq_some_iff.mp hw).1, Option.some.injEq] at hw'
        rw [← hw']
        rcases hworker with rfl | rfl <;> exact trivial
      · exact hother w' worker' hsame hinv

/-- Every step keeps the invariant. -/
theorem cronStep_inv {s : CronSystem} (h : CronInv s) (input : CronInput) :
    CronInv (cronStep zones s input) := by
  cases input with
  | start now limit =>
    refine ⟨h.passed, h.once, h.sentOnce, h.sentClaimed, fun i tick hi => ?_, fun c hc => ?_⟩
    · simp only [cronStep, List.getElem?_append] at hi
      split at hi
      · exact h.ticks i tick hi
      · -- the new tick has no job and no worker
        have hmem := List.mem_of_getElem? hi
        rw [List.mem_singleton.mp hmem]
        exact ⟨by simp, by simp, by simp, by simp, by simp, by simp⟩
    · obtain ⟨tick, htick, hmem⟩ := h.claimTaken c hc
      refine ⟨tick, ?_, hmem⟩
      simp only [cronStep]
      rw [List.getElem?_append_left (List.getElem?_eq_some_iff.mp htick).1, htick]
  | select i =>
    rw [cronStep]
    split
    · next tick hi =>
      split
      · exact h
      · next hselected =>
        have htick := h.ticks i tick hi
        obtain ⟨hcursor, htaken, -⟩ := htick.unselected (by simpa using hselected)
        refine h.setTick hi ⟨fun hno => (by cases hno), fun job hjob => ?_, nodup_selectDue _ _ _, ?_,
          fun job hjob => ?_, fun w worker hw => ?_⟩ (List.Subset.refl _)
        · obtain ⟨row, -, -, -, -, hdue⟩ := mem_selectDue hjob
          exact hdue
        · simp [hcursor, htaken]
        · obtain ⟨row, hrow, hid, henabled, hnext, -⟩ := mem_selectDue hjob
          exact Or.inr ⟨row, hrow, hid, henabled, hnext⟩
        · have hidle := List.mem_of_getElem? hw
          rw [(List.mem_replicate.mp hidle).2]
          exact trivial
    · exact h
  | turn i w late =>
    rw [cronStep]
    split
    · next tick hworker =>
      obtain ⟨hi, hw⟩ := worker_eq_some hworker
      have htick := h.ticks i tick hi
      have hselected : ¬ tick.selected = false := by
        intro hno
        rw [(htick.unselected hno).2.2] at hw
        cases hw
      split
      · exact h.setWorker hi trivial
      · split
        · next job hjob =>
          -- the next job is taken
          obtain ⟨hlt, hget⟩ := List.getElem?_eq_some_iff.mp hjob
          refine h.setTick hi (TickInv.setWorker ⟨fun hno => absurd hno hselected, htick.due, htick.ids,
            ?_, htick.claimedOrDue, fun w' worker' hw' => ?_⟩ ?_) (List.subset_append_left _ _)
          · simp only [List.map_append, List.map_singleton, htick.taken]
            rw [List.take_add_one, hjob, Option.toList_some, List.map_append, List.map_singleton]
          · have hinv := htick.workers w' worker' hw'
            match worker', hinv with
            | .idle, _ | .stopped, _ | .answered _ false, _ => exact trivial
            | .claiming _, hinv => exact ⟨hinv.1, List.mem_append_left _ hinv.2⟩
            | .answered _ true, hinv => exact hinv
            | .executing _, hinv => exact hinv
          · exact ⟨List.mem_of_getElem? hjob, by simp⟩
        · next hnone =>
          -- the cursor runs past the end
          refine h.setTick hi (TickInv.setWorker ⟨fun hno => absurd hno hselected, htick.due, htick.ids,
            ?_, htick.claimedOrDue, fun w' worker' hw' => ?_⟩ trivial) (List.Subset.refl _)
          · have hlen := List.getElem?_eq_none_iff.mp hnone
            show tick.taken.map (·.2) = (tick.jobs.take (tick.cursor + 1)).map (·.id)
            rw [htick.taken, List.take_of_length_le hlen, List.take_of_length_le (by omega)]
          · have hinv := htick.workers w' worker' hw'
            match worker', hinv with
            | .idle, _ | .stopped, _ | .answered _ false, _ => exact trivial
            | .claiming _, hinv => exact hinv
            | .answered _ true, hinv => exact hinv
            | .executing _, hinv => exact hinv
    · exact h
  | update i w answered =>
    rw [cronStep]
    split
    · next tick job hworker =>
      obtain ⟨hi, hw⟩ := worker_eq_some hworker
      refine h.update hi hw (fun v hv => next_gt hv) ?_
      cases answered
      · exact Or.inr rfl
      · exact Or.inl rfl
    · exact h
  | refuse i w =>
    rw [cronStep]
    split
    · next tick job hworker => exact h.setWorker (worker_eq_some hworker).1 trivial
    · exact h
  | resume i w fails =>
    rw [cronStep]
    split
    · next tick job hworker =>
      obtain ⟨hi, hw⟩ := worker_eq_some hworker
      split
      · have hheld := (h.ticks i tick hi).workers w _ hw
        exact h.setWorker hi (show WorkerInv _ _ i tick w (.executing job) from hheld)
      · cases fails <;> exact h.setWorker hi trivial
    · next tick job hworker => exact h.setWorker (worker_eq_some hworker).1 trivial
    · exact h
  | execute i w sent fails =>
    rw [cronStep]
    split
    · next tick job hworker =>
      obtain ⟨hi, hw⟩ := worker_eq_some hworker
      refine h.execute hi hw ?_ sent
      cases fails
      · exact Or.inl rfl
      · exact Or.inr rfl
    · exact h

/-! ## The table -/

/-- The row of a job. -/
def JobTable.row? (table : JobTable) (id : Str) : Option CronRow := table.rows.find? (·.id == id)

private theorem JobTable.row?_eq_some {table : JobTable} {id : Str} {row : CronRow} :
    table.row? id = some row ↔ row ∈ table.rows ∧ row.id = id := by
  unfold row?
  constructor
  · intro h
    exact ⟨List.mem_of_find?_eq_some h, by simpa using List.find?_some h⟩
  · rintro ⟨hrow, rfl⟩
    have hsome : (table.rows.find? (·.id == row.id)).isSome = true :=
      List.find?_isSome.mpr ⟨row, hrow, by simp⟩
    obtain ⟨found, hfound⟩ := Option.isSome_iff_exists.mp hsome
    have hid : found.id = row.id := by simpa using List.find?_some hfound
    rw [hfound, JobTable.eq_of_id (List.mem_of_find?_eq_some hfound) hrow hid]

/-- The row of a job after an update of a claim. -/
private theorem JobTable.row?_update (table : JobTable) (job : JobRow) (next : Option Int) (now : Int)
    (id : Str) : (table.update job next now).row? id = (table.row? id).map (job.updateRow next now) := by
  unfold row? update
  rw [List.find?_map]
  congr 2
  funext row
  simp

/-- What one step does to a row: nothing, or one worker of one tick claims its value, and what it writes
    is later, or nothing when the schedule is not valid or has no next run on the days to come. -/
def RowStep (zones : Str → Option Zone) (days : Nat → Prop) (s s' : CronSystem) (id : Str) : Prop :=
  (s'.table.row? id = s.table.row? id ∧ ∀ c ∈ s'.claims, c.job = id → c ∈ s.claims) ∨
    ∃ row row' c tick, s.table.row? id = some row ∧ s'.table.row? id = some row' ∧
      s'.claims = s.claims ++ [c] ∧ c.job = id ∧ s.ticks[c.tick]? = some tick ∧
      row.nextRunAt = some c.value ∧ c.value ≤ tick.now ∧
      match row'.nextRunAt with
      | some v => c.value < v
      | none => ∃ job ∈ tick.jobs, job.id = id ∧ NoNextRun zones job tick.now days

/-- Where a tick claims a job, the schedule of the job has its next run within the horizon, if it has one. -/
def Foreseen (zones : Str → Option Zone) (s : CronSystem) : CronInput → Prop
  | .update i w _ => ∀ tick job, s.worker i w = some (tick, .claiming job) → WithinHorizon zones job tick.now
  | _ => True

/-- Every step only moves rows forward. -/
private theorem cronStep_rowStep {s : CronSystem} (h : CronInv s) (input : CronInput) {days : Nat → Prop}
    (hdays : ∀ i w answered tick job, input = .update i w answered → s.worker i w = some (tick, .claiming job) →
      NoNextRun zones job tick.now (· < MAX_DAYS_AHEAD) → NoNextRun zones job tick.now days) (id : Str) :
    RowStep zones days s (cronStep zones s input) id := by
  have hsame : ∀ {s' : CronSystem}, s'.table = s.table → s'.claims = s.claims → RowStep zones days s s' id := by
    intro s' htable hclaims
    exact Or.inl ⟨by rw [htable], fun c hc _ => by rwa [hclaims] at hc⟩
  cases input with
  | start now limit => exact hsame rfl rfl
  | select i =>
    rw [cronStep]
    split
    · split
      · exact hsame rfl rfl
      · exact hsame rfl rfl
    · exact hsame rfl rfl
  | turn i w late =>
    rw [cronStep]
    split
    · split
      · exact hsame rfl rfl
      · split
        · exact hsame rfl rfl
        · exact hsame rfl rfl
    · exact hsame rfl rfl
  | refuse i w =>
    rw [cronStep]
    split
    · exact hsame rfl rfl
    · exact hsame rfl rfl
  | resume i w fails =>
    rw [cronStep]
    split
    · split
      · exact hsame rfl rfl
      · exact hsame rfl rfl
    · exact hsame rfl rfl
    · exact hsame rfl rfl
  | execute i w sent fails =>
    rw [cronStep]
    split
    · exact hsame rfl rfl
    · exact hsame rfl rfl
  | update i w answered =>
    rw [cronStep]
    split
    · next tick job hworker =>
      obtain ⟨hi, hw⟩ := worker_eq_some hworker
      have htick := h.ticks i tick hi
      obtain ⟨hjob, -⟩ := htick.workers w _ hw
      simp only
      -- the update touches the row with the id and the next run of the snapshot, if it is still there
      cases hmatched : s.table.rows.any job.matchesRow with
      | false =>
        refine Or.inl ⟨?_, fun c hc _ => by simpa using hc⟩
        rw [JobTable.row?_update]
        cases hrow : s.table.row? id with
        | none => rfl
        | some row =>
          have hno := List.any_eq_false.mp hmatched row (JobTable.row?_eq_some.mp hrow).1
          rw [Option.map_some, JobRow.updateRow, if_neg hno]
      | true =>
        obtain ⟨found, hfound, hmatch⟩ := List.any_eq_true.mp hmatched
        obtain ⟨hid, hvalue⟩ := matchesRow_iff.mp hmatch
        -- the row of the job moves forward or is parked, and the others stay
        by_cases heq : job.id = id
        · have hrow : s.table.row? id = some found := JobTable.row?_eq_some.mpr ⟨hfound, hid.trans heq⟩
          refine Or.inr ⟨found, job.updateRow (nextOrNull zones job tick.now) tick.now found,
            { tick := i, worker := w, job := job.id, value := job.nextRunAt }, tick, hrow, ?_, rfl,
            heq, hi, hvalue, htick.due job hjob, ?_⟩
          · rw [JobTable.row?_update, hrow, Option.map_some]
          · rw [JobRow.updateRow, if_pos hmatch]
            have hdue := htick.due job hjob
            split
            · next v hv =>
              have := next_gt hv
              show job.nextRunAt < v
              omega
            · next hv =>
              exact ⟨job, hjob, heq, hdays i w answered tick job rfl hworker (nextOrNull_eq_none hv)⟩
        · refine Or.inl ⟨?_, fun c hc hcJob => ?_⟩
          · rw [JobTable.row?_update]
            cases hrow : s.table.row? id with
            | none => rfl
            | some row =>
              have hno : ¬ job.matchesRow row = true := fun hm =>
                heq ((matchesRow_iff.mp hm).1.symm.trans (JobTable.row?_eq_some.mp hrow).2)
              rw [Option.map_some, JobRow.updateRow, if_neg hno]
          · rw [if_pos rfl] at hc
            rcases List.mem_append.mp hc with hc | hc
            · exact hc
            · rw [List.mem_singleton.mp hc] at hcJob
              exact absurd hcJob heq
    · exact hsame rfl rfl

/-! ## Every run -/

/-- What the compare-and-set guarantees of a run. -/
structure TicksSafe (zones : Str → Option Zone) (days : Nat → Prop) (table : JobTable) (inputs : List CronInput) :
    Prop where
  /-- Each value of a job is claimed by at most one worker of one tick. -/
  claimedOnce : (((cronMachine zones table).run inputs).claims.map fun c => (c.job, c.value)).Nodup
  /-- A request is sent for a claim, by its worker, and for each claim at most once. -/
  sentOnce : ((cronMachine zones table).run inputs).sends.Nodup ∧
    ∀ c ∈ ((cronMachine zones table).run inputs).sends, c ∈ ((cronMachine zones table).run inputs).claims
  /-- In every step every row stays as it is, or is claimed and moves forward. -/
  forward : (cronMachine zones table).Steps
    (fun s input => ∀ id, RowStep zones days s (cronStep zones s input) id) (cronMachine zones table).init inputs
  /-- A job of a snapshot that was not claimed at its value is due again at every later clock. -/
  dueAgain : ∀ tick ∈ ((cronMachine zones table).run inputs).ticks, ∀ job ∈ tick.jobs,
    (∀ c ∈ ((cronMachine zones table).run inputs).claims,
      ¬ (c.job = job.id ∧ c.value = job.nextRunAt)) →
    ∀ later, tick.now ≤ later → ∃ row, ((cronMachine zones table).run inputs).table.row? job.id = some row ∧
      row.nextRunAt = some job.nextRunAt ∧ row.isDue later = true
  /-- Within one tick each job is taken once, and who claims a job in a tick took it. -/
  takenOnce : ∀ tick ∈ ((cronMachine zones table).run inputs).ticks, (tick.taken.map (·.2)).Nodup
  claimTaken : ∀ c ∈ ((cronMachine zones table).run inputs).claims, ∃ tick,
    ((cronMachine zones table).run inputs).ticks[c.tick]? = some tick ∧ (c.worker, c.job) ∈ tick.taken

/-- The invariant holds before any tick. -/
private theorem cronInv_init (table : JobTable) : CronInv { table } :=
  ⟨by simp, by simp, by simp, by simp, by simp, by simp⟩

/-- A run is safe, where null says what the search of each claim says. -/
private theorem ticksSafe_of_steps (zones : Str → Option Zone) (table : JobTable) (inputs : List CronInput)
    {days : Nat → Prop} {G : CronSystem → CronInput → Prop}
    (hdays : ∀ s i w answered tick job, G s (.update i w answered) → s.worker i w = some (tick, .claiming job) →
      NoNextRun zones job tick.now (· < MAX_DAYS_AHEAD) → NoNextRun zones job tick.now days)
    (hsteps : (cronMachine zones table).Steps G (cronMachine zones table).init inputs) :
    TicksSafe zones days table inputs := by
  have hinv : CronInv ((cronMachine zones table).run inputs) :=
    Machine.invariant_runFrom (M := cronMachine zones table) (G := fun _ _ => True) (I := CronInv)
      (fun s input h _ => cronStep_inv h input) (cronInv_init table) ((cronMachine zones table).steps_true _ _)
  have hget : ∀ {tick}, tick ∈ ((cronMachine zones table).run inputs).ticks →
      ∃ i, TickInv ((cronMachine zones table).run inputs).claims
        ((cronMachine zones table).run inputs).sends
        ((cronMachine zones table).run inputs).table.rows i tick := by
    intro tick htick
    obtain ⟨i, hi⟩ := List.mem_iff_getElem?.mp htick
    exact ⟨i, hinv.ticks i tick hi⟩
  refine ⟨hinv.once, ⟨hinv.sentOnce, hinv.sentClaimed⟩, ?_, fun tick htick job hjob hno later hlater => ?_,
    fun tick htick => ?_, hinv.claimTaken⟩
  · exact Machine.Steps.of_invariant (M := cronMachine zones table) (G := G) (I := CronInv)
      (fun s input h _ => cronStep_inv h input)
      (fun s input h hgood id => cronStep_rowStep h input
        (fun i w answered tick job hinput => hdays s i w answered tick job (hinput ▸ hgood)) id)
      (cronInv_init table) hsteps
  · obtain ⟨i, hi⟩ := hget htick
    rcases hi.claimedOrDue job hjob with ⟨c, hc, heq⟩ | ⟨row, hrow, hid, henabled, hnext⟩
    · exact absurd heq (hno c hc)
    · have hdue := hi.due job hjob
      refine ⟨row, JobTable.row?_eq_some.mpr ⟨hrow, hid⟩, hnext, ?_⟩
      simp only [CronRow.isDue, henabled, hnext, Bool.true_and, decide_eq_true_eq]
      omega
  · obtain ⟨i, hi⟩ := hget htick
    rw [hi.taken]
    exact hi.ids.sublist ((List.take_sublist _ _).map _)

/-- One zone. -/
def utcOnly (_ : Str) : Option Zone := some fun _ => 0

/-- A job, which is due. -/
def dueJob (scheduleExpr : Str) (due : Int) : JobRow :=
  { id := ['j'], scheduleExpr, timezone := "UTC".toList, nextRunAt := due }

/-- A table with that job. -/
def oneJob (scheduleExpr : Str) (due : Int) : JobTable where
  rows := [{ id := ['j'], enabled := true, scheduleExpr, timezone := "UTC".toList, nextRunAt := some due }]
  nodup := List.nodup_singleton _

/-- One tick claims the job. -/
def claimOneJob (now : Int) : List CronInput := [.start now 5, .select 0, .turn 0 0 false, .update 0 0 true]

/-- The start of the 29th of February of 2024. -/
def leapDay2024 : Int := 1709164800000

/-- The start of the 29th of February of 2096. -/
def leapDay : Int := 3981312000000

end TeamClu.AppCron
