import TeamClu.ForStd.Calendar
import TeamClu.Native.CronSchedule

/-!
# The search for the next run

`wallClockToInstant`, `dayMatches` and `nextRunAfter` of `services/fc/src/lib/app-cron-schedule.ts`.
An instant is a number of milliseconds since 1970.  A time zone is its offset at every instant; the
formatter of a zone shows the year of the era, so it has no year 0 and no negative one.
-/

namespace TeamClu.AppCron

/-- The offset of the wall clock of a zone from UTC, in milliseconds. -/
abbrev Zone := Int → Int

/-- What a wall clock reads. -/
structure WallClock where
  year : Int
  month : Int
  day : Int
  hour : Int
  minute : Int
  weekday : Int
  deriving DecidableEq, Repr

def MS_PER_DAY : Int := 86400000
def MS_PER_HOUR : Int := 3600000
def MS_PER_MINUTE : Int := 60000

/-- What the wall clock in the zone reads at this instant. -/
def wallClockAt (instant : Int) (tz : Zone) : WallClock :=
  let localTime := instant + tz instant
  let day := localTime / MS_PER_DAY
  let date := Calendar.dateOfDay day
  { year := if date.year ≤ 0 then 1 - date.year else date.year
    month := date.month
    day := date.day
    hour := localTime % MS_PER_DAY / MS_PER_HOUR
    minute := localTime % MS_PER_HOUR / MS_PER_MINUTE
    weekday := Calendar.weekday day }

/-- `Date.UTC`: the years from 0 to 99 are read as 1900 to 1999. -/
def dateUTC (year month day hour minute : Int) : Int :=
  let fullYear := if 0 ≤ year ∧ year ≤ 99 then 1900 + year else year
  Calendar.dayOfDate fullYear month day * MS_PER_DAY + hour * MS_PER_HOUR + minute * MS_PER_MINUTE

/-- The loop of `wallClockToInstant`: the guess is corrected by its drift, at most twice; `.inl` returns
    from the function. -/
def correctGuess (target : Int) (tz : Zone) : Nat → Int → Sum Int Int
  | 0, instant => .inr instant
  | rounds + 1, instant =>
    let w := wallClockAt instant tz
    let drift := dateUTC w.year w.month w.day w.hour w.minute - target
    if drift = 0 then .inl instant else correctGuess target tz rounds (instant - drift)

/-- The instant at which the wall clock reads exactly this date and time, or none. -/
def wallClockToInstant (year month day hour minute : Int) (tz : Zone) : Option Int :=
  let target := dateUTC year month day hour minute
  match correctGuess target tz 2 target with
  | .inl instant => some instant
  | .inr instant =>
    let w := wallClockAt instant tz
    if w.year = year ∧ w.month = month ∧ w.day = day ∧ w.hour = hour ∧ w.minute = minute then
      some instant
    else none

/-- `values.has(n)`. -/
def hasNum (values : List CronValue) (n : Int) : Bool := 0 ≤ n && values.contains (.num n.toNat)

/-- `dayMatches`: with both day fields restricted, either one will do. -/
def dayMatches (fields : CronFields) (w : WallClock) : Bool :=
  if !hasNum fields.month w.month then false
  else
    let dom := hasNum fields.dayOfMonth w.day
    let dow := hasNum fields.dayOfWeek w.weekday
    if fields.dayOfMonthRestricted && fields.dayOfWeekRestricted then dom || dow
    else if fields.dayOfMonthRestricted then dom
    else if fields.dayOfWeekRestricted then dow
    else true

/-- Four years of candidate days. -/
def MAX_DAYS_AHEAD : Nat := 366 * 4

/-- The values of the hour or the minute field in order.  These fields have no names, so all of them
    are numbers. -/
def sortedNumbers (values : List CronValue) : List Int :=
  (values.filterMap fun v => match v with
    | .num n => some (n : Int)
    | .inherited _ => none).mergeSort (· ≤ ·)

/-- The local date `offset` days after that of `start`. -/
def dayAfter (start : WallClock) (offset : Nat) : WallClock :=
  let day := dateUTC start.year start.month (start.day + offset) 0 0 / MS_PER_DAY
  let date := Calendar.dateOfDay day
  { year := date.year, month := date.month, day := date.day, hour := 0, minute := 0,
    weekday := Calendar.weekday day }

/-- The innermost step of the search: the instant of this local minute, if it is after `start`. -/
def tryMinute (tz : Zone) (from_ : Int) (start w : WallClock) (offset : Nat) (hour minute : Int) :
    Option Int :=
  if offset = 0 ∧ hour = start.hour ∧ minute ≤ start.minute then none
  else (wallClockToInstant w.year w.month w.day hour minute tz).filter (from_ < ·)

/-- The hours and minutes of one candidate day. -/
def tryDay (fields : CronFields) (tz : Zone) (from_ : Int) (start : WallClock) (offset : Nat) :
    Option Int :=
  let w := dayAfter start offset
  if !dayMatches fields w then none
  else
    (sortedNumbers fields.hour).findSome? fun hour =>
      if offset = 0 ∧ hour < start.hour then none
      else (sortedNumbers fields.minute).findSome? (tryMinute tz from_ start w offset hour)

/-- The first instant strictly after `from_` that satisfies the expression. -/
def nextRunAfter (fields : CronFields) (tz : Zone) (from_ : Int) : Option Int :=
  (List.range MAX_DAYS_AHEAD).findSome? (tryDay fields tz from_ (wallClockAt from_ tz))

/-- The error of a schedule that cannot be computed. -/
inductive ScheduleError where
  /-- `timezone is required` -/
  | timezoneRequired
  /-- `unknown timezone: ${tz}` -/
  | unknownTimezone (tz : Str)
  | expression (error : CronError)
  deriving DecidableEq, Repr

/-- Parse, validate the zone, and compute the next fire; `zones` are those that the runtime knows. -/
def computeNextRun (zones : Str → Option Zone) (expr tz : Str) (from_ : Int) :
    Except ScheduleError (Option Int) :=
  if Str.jsTrim tz = [] then .error .timezoneRequired
  else
    match zones tz with
    | none => .error (.unknownTimezone tz)
    | some zone =>
      match parseCronExpression expr with
      | .error error => .error (.expression error)
      | .ok fields => .ok (nextRunAfter fields zone from_)

/-! ## The search moves forward -/

/-- What is found is after the start. -/
theorem nextRunAfter_gt {fields : CronFields} {tz : Zone} {from_ t : Int}
    (h : nextRunAfter fields tz from_ = some t) : from_ < t := by
  obtain ⟨offset, -, hday⟩ := List.exists_of_findSome?_eq_some h
  unfold tryDay at hday
  simp only at hday
  split at hday
  · cases hday
  · obtain ⟨hour, -, hhour⟩ := List.exists_of_findSome?_eq_some hday
    split at hhour
    · cases hhour
    · obtain ⟨minute, -, hminute⟩ := List.exists_of_findSome?_eq_some hhour
      unfold tryMinute at hminute
      split at hminute
      · cases hminute
      · exact of_decide_eq_true (Option.filter_eq_some_iff.mp hminute).2

/-- The next run is after the instant it is computed from. -/
theorem computeNextRun_gt {zones : Str → Option Zone} {expr tz : Str} {from_ t : Int}
    (h : computeNextRun zones expr tz from_ = .ok (some t)) : from_ < t := by
  unfold computeNextRun at h
  split at h
  · cases h
  · split at h
    · cases h
    · split at h
      · cases h
      · exact nextRunAfter_gt (Except.ok.inj h)

end TeamClu.AppCron
