import TeamClu.Native.ToolDeadline

/-!
# Which runs the stuck-tool deadline watches

The deadline is one instant that each event overwrites, so what it is after a tool's event is read off that event
alone.  `Covers` says when that is right for the tools in flight: a result leaves no other tool in flight, and an
announcement with no timeout, or with a later deadline, comes when no other one is.

## Key results

- `agrees_run`: the two variants agree up to the unit, and no sum overflows
- `watched_iff`: the deadline is right after every event exactly when every event is covered
-/

namespace TeamClu.ToolDeadline

variable {fromStr : Str → Option Value} {boot : Int}

/-- The earliest deadline of the tools in flight. -/
def Watch.earliest (s : Watch) : Option Nat := (s.running.map (·.2)).min?

/-- The deadline of the turn is that of the tools in flight. -/
def Watch.Watched (s : Watch) : Prop := s.instant = some s.earliest

/-- No sum has overflowed, and the two deadlines are one up to the unit of the clock. -/
def Watch.Agrees (boot : Int) (s : Watch) : Prop :=
  ∃ deadline, s.instant = some deadline ∧ s.unix = some (deadline.map (unixTime boot)) ∧
    ∀ d ∈ deadline, d < 2 ^ 63 * second

/-- A wait ends by the deadline of each tool in flight, and before the silence budget only for such a one. -/
def Watch.WaitsRight (s : Watch) : Prop :=
  ∀ deadline, s.instant = some deadline → ∀ lastActivity channelIdle now,
    (∀ tool ∈ s.running, now + waitRemainingAt lastActivity channelIdle deadline now ≤ max now tool.2) ∧
    (waitRemainingAt lastActivity channelIdle deadline now < idleRemainingAt lastActivity channelIdle now →
      ∃ tool ∈ s.running, now + waitRemainingAt lastActivity channelIdle deadline now = max now tool.2)

/-- The deadline that a tool with the timeout gets. -/
def deadlineOf (now secs : Nat) : Nat := now + secs * second + toolTimeoutGrace * second

/-- Where an event sets the deadline, that is right for the other tools in flight. -/
def Covers (fromStr : Str → Option Value) (s : Watch) (e : TimedEvent boot) : Prop :=
  match e.event with
  | .toolUse toolId rawInputJson params =>
    match declaredToolTimeoutSecs fromStr rawInputJson params with
    | some secs => ∀ tool ∈ s.running, tool.1 ≠ toolId → deadlineOf e.time secs ≤ tool.2
    | none => ∀ tool ∈ s.running, tool.1 = toolId
  | .toolResult toolId => ∀ tool ∈ s.running, tool.1 = toolId
  | .other => True

/-! ## One event -/

/-- A declared timeout is at most a day. -/
theorem declaredToolTimeoutSecs_le {raw : Str} {params : List (Str × Str)} {secs : Nat}
    (h : declaredToolTimeoutSecs fromStr raw params = some secs) : secs ≤ maxDeclaredToolTimeoutSecs := by
  have hfilter := (Option.filter_eq_some_iff.mp h).2
  simp only [Bool.and_eq_true, decide_eq_true_eq] at hfilter
  exact hfilter.2

/-- An instant in the range of the clock has room for a declared timeout. -/
theorem deadlineOf_lt {now secs : Nat} (hnow : now < 2 ^ 62 * second)
    (hsecs : secs ≤ maxDeclaredToolTimeoutSecs) : deadlineOf now secs < 2 ^ 63 * second := by
  unfold deadlineOf
  simp only [second, maxDeclaredToolTimeoutSecs, toolTimeoutGrace] at *
  omega

theorem instantAdd_of_lt {t d : Nat} (h : t + d < 2 ^ 63 * second) : instantAdd t d = some (t + d) := by
  rw [instantAdd, if_pos h]

theorem i64Add_of_lt {a b : Int} (hlow : -2 ^ 63 ≤ a + b) (hhigh : a + b < 2 ^ 63) :
    i64Add a b = some (a + b) := by
  rw [i64Add, if_pos ⟨hlow, hhigh⟩]

/-- A call sets the deadline from its own timeout alone. -/
theorem applyToolDeadlineFromEvent_toolUse (deadline : Option Nat) (toolId raw : Str)
    (params : List (Str × Str)) {now : Nat} (hnow : now < 2 ^ 62 * second) :
    applyToolDeadlineFromEvent fromStr deadline now (.toolUse toolId raw params) =
      some ((declaredToolTimeoutSecs fromStr raw params).map (deadlineOf now)) := by
  simp only [applyToolDeadlineFromEvent]
  cases hsecs : declaredToolTimeoutSecs fromStr raw params with
  | none => simp
  | some secs =>
    have hlt := deadlineOf_lt hnow (declaredToolTimeoutSecs_le hsecs)
    rw [deadlineOf] at hlt
    have hfirst := instantAdd_of_lt (lt_of_le_of_lt (Nat.le_add_right _ _) hlt)
    dsimp only
    rw [hfirst, Option.bind_eq_bind, Option.bind_some, instantAdd_of_lt hlt, Option.map_some, deadlineOf]
    rfl

/-- So does the other variant, with the Unix time of the same instant. -/
theorem applyToolDeadlineUnix_toolUse (deadline : Option Int) (toolId raw : Str)
    (params : List (Str × Str)) {now : Nat}
    (hnow : -2 ^ 62 ≤ unixTime boot now ∧ unixTime boot now < 2 ^ 62) :
    applyToolDeadlineUnix fromStr deadline (unixTime boot now) (.toolUse toolId raw params) =
      some ((declaredToolTimeoutSecs fromStr raw params).map fun secs =>
        unixTime boot (deadlineOf now secs)) := by
  simp only [applyToolDeadlineUnix]
  cases hsecs : declaredToolTimeoutSecs fromStr raw params with
  | none => simp
  | some secs =>
    have hle := declaredToolTimeoutSecs_le hsecs
    have hsum : unixTime boot (deadlineOf now secs) = unixTime boot now + secs + toolTimeoutGrace := by
      unfold unixTime deadlineOf second
      simp only [toolTimeoutGrace]
      omega
    simp only [maxDeclaredToolTimeoutSecs, toolTimeoutGrace] at hle hsum
    have hfirst : i64Add (unixTime boot now) (if secs < 2 ^ 63 then secs else 2 ^ 63 - 1) =
        some (unixTime boot now + secs) := by
      rw [if_pos (by omega), i64Add_of_lt (by omega) (by omega)]
    have hsecond : i64Add (unixTime boot now + secs) toolTimeoutGrace =
        some (unixTime boot (deadlineOf now secs)) := by
      simp only [toolTimeoutGrace]
      rw [hsum, i64Add_of_lt (by omega) (by omega)]
    simp only [hfirst, hsecond, Option.bind_eq_bind, Option.bind_some, Option.map_some]

/-- The two deadlines stay one. -/
theorem Watch.Agrees.step {s : Watch} (h : s.Agrees boot) (e : TimedEvent boot) :
    (watchStep fromStr s e).Agrees boot := by
  obtain ⟨deadline, hinstant, hunix, hlt⟩ := h
  obtain ⟨event, time, htime, hrange⟩ := e
  unfold watchStep Watch.Agrees
  rw [hinstant, hunix]
  cases event with
  | toolResult toolId => exact ⟨none, rfl, rfl, by simp⟩
  | other => exact ⟨deadline, rfl, rfl, hlt⟩
  | toolUse toolId raw params =>
    refine ⟨(declaredToolTimeoutSecs fromStr raw params).map (deadlineOf time),
      applyToolDeadlineFromEvent_toolUse deadline toolId raw params htime, ?_,
      fun d hd => ?_⟩
    · rw [Option.map_map]
      exact applyToolDeadlineUnix_toolUse (deadline.map (unixTime boot)) toolId raw params hrange
    · obtain ⟨secs, hsecs, rfl⟩ := Option.map_eq_some_iff.mp hd
      exact deadlineOf_lt htime (declaredToolTimeoutSecs_le hsecs)

theorem earliest_eq_none {s : Watch} : s.earliest = none ↔ s.running = [] := by
  simp [Watch.earliest]

/-- After an event the deadline is right exactly when the event was covered. -/
theorem watched_step_iff (s : Watch) (e : TimedEvent boot) (hs : s.Watched) :
    (watchStep fromStr s e).Watched ↔ Covers fromStr s e := by
  obtain ⟨event, time, htime, hrange⟩ := e
  unfold Watch.Watched at hs
  have hothers (toolId : Str) : s.running.filter (·.1 ≠ toolId) = [] ↔
      ∀ tool ∈ s.running, tool.1 = toolId := by simp
  cases event with
  | other =>
    have hsame : (watchStep fromStr s ⟨.other, time, htime, hrange⟩).Watched := by
      unfold Watch.Watched watchStep
      rw [hs]
      rfl
    exact iff_of_true hsame trivial
  | toolResult toolId =>
    -- the code forgets the deadline, so no other tool may be in flight
    have hnew : (watchStep fromStr s ⟨.toolResult toolId, time, htime, hrange⟩).Watched ↔
        some none = some (Watch.earliest { running := s.running.filter (·.1 ≠ toolId) }) := by
      unfold Watch.Watched watchStep
      rw [hs]
      rfl
    rw [hnew, Option.some_inj, eq_comm, earliest_eq_none]
    exact hothers toolId
  | toolUse toolId raw params =>
    have hnew : (watchStep fromStr s ⟨.toolUse toolId raw params, time, htime, hrange⟩).Watched ↔
        some ((declaredToolTimeoutSecs fromStr raw params).map (deadlineOf time)) =
          some (Watch.earliest { running := track fromStr s.running time (.toolUse toolId raw params) }) := by
      unfold Watch.Watched watchStep
      rw [hs, Option.bind_some, applyToolDeadlineFromEvent_toolUse _ toolId raw params htime]
      rfl
    rw [hnew, Option.some_inj]
    simp only [Covers, track]
    cases hsecs : declaredToolTimeoutSecs fromStr raw params with
    | none =>
      rw [Option.map_none, eq_comm, earliest_eq_none]
      exact hothers toolId
    | some secs =>
      rw [Option.map_some, eq_comm, Watch.earliest, List.map_cons, List.min?_eq_some_iff]
      simp only [List.mem_cons, List.mem_map, List.mem_filter, decide_eq_true_eq, forall_eq_or_imp]
      constructor
      · intro h tool htool hne
        exact h.2.2 _ ⟨tool, ⟨htool, hne⟩, rfl⟩
      · intro h
        refine ⟨.inl rfl, le_refl _, ?_⟩
        rintro _ ⟨tool, ⟨htool, hne⟩, rfl⟩
        exact h tool htool hne

/-! ## Waiting -/

/-- Where the deadline is right, so is every wait. -/
theorem Watch.Watched.waitsRight {s : Watch} (h : s.Watched) : s.WaitsRight := by
  intro deadline hdeadline lastActivity channelIdle now
  unfold Watch.Watched at h
  obtain rfl : s.earliest = deadline := Option.some_inj.mp (h.symm.trans hdeadline)
  cases hearliest : s.earliest with
  | none =>
    rw [earliest_eq_none] at hearliest
    simp [hearliest, waitRemainingAt]
  | some d =>
    have hmin := List.min?_eq_some_iff.mp hearliest
    obtain ⟨tool, htool, rfl⟩ := List.mem_map.mp hmin.1
    simp only [waitRemainingAt]
    constructor
    · intro other hother
      have hle := hmin.2 _ (List.mem_map_of_mem hother)
      omega
    · intro hlt
      exact ⟨tool, htool, by omega⟩

/-! ## Runs -/

/-- The deadlines of a run agree, and no sum of it overflows. -/
theorem agrees_run (events : List (TimedEvent boot)) :
    ((watchMachine fromStr boot).run events).Agrees boot := by
  have hinit : Watch.Agrees boot {} := ⟨none, rfl, rfl, by simp⟩
  exact Machine.invariant_runFrom (I := Watch.Agrees boot) (fun _ e h _ => Watch.Agrees.step h e) hinit
    (Machine.steps_true _ _ events)

/-- After every event of a run the deadline is there exactly when a tool with a timeout is in flight, is then the
    earliest of theirs in both variants, and lets no wait outlive it or be cut short for another, exactly when every
    event of the run is covered. -/
theorem watched_iff (fromStr : Str → Option Value) (boot : Int) (events : List (TimedEvent boot)) :
    (∀ pre, pre <+: events →
      ((watchMachine fromStr boot).run pre).Watched ∧ ((watchMachine fromStr boot).run pre).Agrees boot ∧
        ((watchMachine fromStr boot).run pre).WaitsRight) ↔
      (watchMachine fromStr boot).Steps (Covers fromStr) {} events := by
  rw [← Machine.prefixes_iff_steps (M := watchMachine fromStr boot) watched_step_iff (s := {}) rfl]
  refine forall₂_congr fun pre _ => ⟨fun h => h.1, fun h => ?_⟩
  exact ⟨h, agrees_run pre, Watch.Watched.waitsRight h⟩

/-- The event at a second of both clocks. -/
def eventAt (event : AcpEvent) (secs : Nat) (h : secs < 2 ^ 62) : TimedEvent 0 where
  event := event
  time := secs * second
  time_lt := by simp only [second]; omega
  unix_range := by simp only [unixTime, second]; omega

/-- A tool that says nothing of a timeout takes the deadline of the one that runs next to it. -/
theorem second_tool_drops_deadline :
    let bash : AcpEvent := .toolUse "bash".toList [] [("timeout".toList, "60".toList)]
    let scrape : AcpEvent := .toolUse "scrape".toList [] []
    let events := [eventAt bash 0 (by decide), eventAt scrape 1 (by decide)]
    let s := (watchMachine (fun _ => none) 0).run events
    s.running = [("bash".toList, 75 * second)] ∧ s.instant = some none ∧ ¬ s.Watched := by
  refine ⟨by decide, by decide, ?_⟩
  unfold Watch.Watched Watch.earliest
  decide

end TeamClu.ToolDeadline
