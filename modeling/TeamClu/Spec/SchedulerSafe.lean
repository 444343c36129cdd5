import TeamClu.Native.SyncScheduler
import Mathlib.Order.Lattice
import Mathlib.Tactic.Common

/-!
# The sync scheduler is safe

The fields of the scheduler are what the triggers of the batch, the last tick end and the tick under way
make of them (`Remembers`), after every sequence of calls.  From this alone follow the bounds on the next
fire and on when a tick begins (`scheduler_safe`).
-/

namespace TeamClu.Scheduler

/-- Whether the trigger is a remote one. -/
def Trigger.isRemote : Trigger → Bool
  | .local => false
  | .remote _ => true

/-- The sequence number of a remote trigger. -/
def Trigger.seq? : Trigger → Option Int
  | .local => none
  | .remote seq => some seq

/-- What should hold of a scheduler in a run. -/
structure Safe (w : Watched) : Prop where
  inTick : w.scheduler.inTick = w.ticking
  /-- A batch is pending work in an open window, which its first trigger opened. -/
  remembered : ∀ first ∈ w.batch.head?, w.scheduler.hasPending = true ∧
    w.scheduler.windowOpenedAt = some first.1
  /-- Outside a tick it is scheduled, not too late. -/
  scheduled : w.ticking = false → ∀ first ∈ w.batch.head?, ∃ t, w.scheduler.nextFireAt = some t ∧
    t ≤ max (first.1 + coalesceWindow) ((w.tickEnd.map (· + remoteFloor)).getD 0)
  /-- A later trigger does not put it off. -/
  kept : ∀ t, w.scheduler.nextFireAt = some t → ∀ now trigger, ∃ t',
    (w.scheduler.trigger now trigger).1.nextFireAt = some t' ∧ t' ≤ t
  /-- A tick begins only outside a tick, for a batch, after its window and the floor of the last tick. -/
  begins : ∀ now, (w.scheduler.tryBeginTick now).2 = true → w.ticking = false ∧
    ∃ first ∈ w.batch.head?, first.1 + coalesceWindow ≤ now ∧
      ∀ tickEnd ∈ w.tickEnd,
        tickEnd + (if w.batch.all (·.2.isRemote) then remoteFloor else localFloor) ≤ now
  /-- A tick that is due begins. -/
  due : ∀ t now, w.scheduler.nextFireAt = some t → t ≤ now → (w.scheduler.tryBeginTick now).2 = true

/-- The fields of the scheduler by what was seen of the run. -/
structure Remembers (w : Watched) : Prop where
  inTick : w.scheduler.inTick = w.ticking
  lastTickEnd : w.scheduler.lastTickEnd = w.tickEnd
  window : w.scheduler.windowOpenedAt = w.batch.head?.map (·.1)
  pendingLocal : w.scheduler.pendingLocal = w.batch.any (!·.2.isRemote)
  pendingRemote : w.scheduler.pendingRemote = w.batch.any (·.2.isRemote)
  /-- The highest of the sequence numbers. -/
  seq : w.scheduler.pendingRemoteSeq = (w.batch.filterMap (·.2.seq?)).max?

/-! ## The calls -/

/-- A list with one more number has the greater of its maximum and this one as maximum. -/
private theorem max?_concat (l : List Int) (n : Int) :
    (l ++ [n]).max? = some (match l.max? with
      | some m => max m n
      | none => n) := by
  cases l with
  | nil => rfl
  | cons m l => rw [List.cons_append, List.max?_cons', List.foldl_append, List.max?_cons']; rfl

theorem Remembers.trigger {w : Watched} (h : Remembers w) (now : Nat) (t : Trigger) :
    Remembers (watch w (now, .trigger t)) where
  inTick := by cases t <;> exact h.inTick
  lastTickEnd := by cases t <;> exact h.lastTickEnd
  window := by
    have hwindow : (watch w (now, .trigger t)).scheduler.windowOpenedAt =
        w.scheduler.windowOpenedAt.or (some now) := by cases t <;> rfl
    rw [hwindow, h.window]
    show _ = ((w.batch ++ [(now, t)]).head?).map _
    cases w.batch <;> rfl
  pendingLocal := by
    have hbatch := h.pendingLocal
    cases t <;> simp [watch, SyncScheduler.trigger, SyncScheduler.remember, Trigger.isRemote, hbatch]
  pendingRemote := by
    have hbatch := h.pendingRemote
    cases t <;> simp [watch, SyncScheduler.trigger, SyncScheduler.remember, Trigger.isRemote, hbatch]
  seq := by
    cases t with
    | «local» => simpa [watch, SyncScheduler.trigger, SyncScheduler.remember, Trigger.seq?] using h.seq
    | remote n =>
      have hbatch : (watch w (now, .trigger (.remote n))).batch.filterMap (·.2.seq?) =
          w.batch.filterMap (·.2.seq?) ++ [n] := by simp [watch, Trigger.seq?]
      rw [hbatch, max?_concat, ← h.seq]
      rfl

/-- What a try does: nothing, or, when a fire is due, it takes the pending work into a tick. -/
theorem tryBeginTick_cases (s : SyncScheduler) (now : Nat) :
    (s.tryBeginTick now = (s, false) ∧ ∀ t, s.nextFireAt = some t → now < t) ∨
      ∃ t, s.nextFireAt = some t ∧ t ≤ now ∧
        s.tryBeginTick now = ({ lastTickEnd := s.lastTickEnd, inTick := true }, true) := by
  rw [SyncScheduler.tryBeginTick, SyncScheduler.nextFireAt]
  by_cases hin : s.inTick = true
  · rw [if_pos hin]
    refine .inl ⟨rfl, fun t ht => ?_⟩
    simp [SyncScheduler.computeFireAt, hin] at ht
  · rw [if_neg hin]
    cases hfire : s.computeFireAt with
    | none => exact .inl ⟨rfl, fun t ht => nomatch ht⟩
    | some t =>
      by_cases hlt : now < t
      · refine .inl ⟨if_pos hlt, fun t' ht' => ?_⟩
        exact Option.some.inj ht' ▸ hlt
      · exact .inr ⟨t, rfl, Nat.le_of_not_lt hlt, if_neg hlt⟩

theorem Remembers.tryBeginTick {w : Watched} (h : Remembers w) (now : Nat) :
    Remembers (watch w (now, .tryBeginTick)) := by
  obtain ⟨hnot, -⟩ | ⟨t, -, -, hbegan⟩ := tryBeginTick_cases w.scheduler now
  · simp only [watch, hnot]
    exact h
  · simp only [watch, hbegan, if_true]
    exact ⟨rfl, h.lastTickEnd, rfl, rfl, rfl, rfl⟩

/-- The pending work is that of the batch. -/
theorem Remembers.hasPending_iff {w : Watched} (h : Remembers w) :
    w.scheduler.hasPending = true ↔ w.batch ≠ [] := by
  rw [SyncScheduler.hasPending, h.pendingLocal, h.pendingRemote]
  cases w.batch with
  | nil => simp
  | cons e batch => cases hremote : e.2.isRemote <;> simp [hremote]

theorem Remembers.endTick {w : Watched} (h : Remembers w) (now : Nat) :
    Remembers (watch w (now, .endTick)) := by
  -- Pending work has its window already.
  have hwindow : (w.scheduler.hasPending && w.scheduler.windowOpenedAt.isNone) = false := by
    cases hpending : w.scheduler.hasPending with
    | false => rfl
    | true =>
      rw [h.window]
      cases hbatch : w.batch with
      | nil => exact absurd hbatch (h.hasPending_iff.mp hpending)
      | cons e batch => rfl
  have hend : (w.scheduler.endTick now).1 =
      { w.scheduler with inTick := false, lastTickEnd := some now } := by
    simp only [SyncScheduler.endTick]
    exact if_neg (Bool.eq_false_iff.mp hwindow)
  simp only [watch, hend]
  exact ⟨rfl, rfl, h.window, h.pendingLocal, h.pendingRemote, h.seq⟩

/-- After every sequence of calls the scheduler remembers its batch. -/
theorem remembers_run (calls : List (Nat × Call)) : Remembers (schedulerMachine.run calls) := by
  refine Machine.invariant_runFrom (G := fun _ _ => True) (fun w input h _ => ?_)
    ⟨rfl, rfl, rfl, rfl, rfl, rfl⟩ (schedulerMachine.steps_true _ calls)
  obtain ⟨now, call⟩ := input
  cases call with
  | trigger t => exact h.trigger now t
  | tryBeginTick => exact h.tryBeginTick now
  | endTick => exact h.endTick now

/-! ## The next fire -/

/-- The floor of pending work lies between the two floors. -/
private theorem floorDuration_le (s : SyncScheduler) : s.floorDuration ≤ remoteFloor := by
  unfold SyncScheduler.floorDuration
  split <;> decide

/-- When the next fire is. -/
theorem nextFireAt_eq_some {s : SyncScheduler} {t : Nat} : s.nextFireAt = some t ↔
    s.inTick = false ∧ s.hasPending = true ∧ ∃ opened, s.windowOpenedAt = some opened ∧
      t = max (opened + coalesceWindow)
        ((s.lastTickEnd.map (· + s.floorDuration)).getD (opened + coalesceWindow)) := by
  rw [SyncScheduler.nextFireAt, SyncScheduler.computeFireAt]
  cases s.inTick <;> cases s.hasPending <;> simp
  cases s.windowOpenedAt <;> cases s.lastTickEnd <;> simp [eq_comm]

/-- One more trigger does not raise the floor of pending work. -/
private theorem floorDuration_remember {s : SyncScheduler} (h : s.hasPending = true) (t : Trigger) :
    (s.remember t).floorDuration ≤ s.floorDuration := by
  cases hlocal : s.pendingLocal <;> cases hremote : s.pendingRemote <;> cases t <;>
    simp_all [SyncScheduler.hasPending, SyncScheduler.floorDuration, SyncScheduler.remember,
      localFloor, remoteFloor, second]

/-! ## Safety -/

/-- What the fields remember of the batch is enough. -/
theorem Remembers.safe {w : Watched} (h : Remembers w) : Safe w where
  inTick := h.inTick
  remembered first hfirst := by
    refine ⟨h.hasPending_iff.mpr fun hnil => ?_, ?_⟩
    · rw [hnil] at hfirst
      cases hfirst
    · rw [h.window, hfirst]
      rfl
  scheduled hquiet first hfirst := by
    have hpending : w.batch ≠ [] := by
      rintro hnil
      rw [hnil] at hfirst
      cases hfirst
    have hwindow : w.scheduler.windowOpenedAt = some first.1 := by
      rw [h.window, hfirst]
      rfl
    refine ⟨_, nextFireAt_eq_some.mpr ⟨h.inTick.trans hquiet, h.hasPending_iff.mpr hpending, _, hwindow,
      rfl⟩, ?_⟩
    rw [h.lastTickEnd]
    have hfloor := floorDuration_le w.scheduler
    cases w.tickEnd with
    | none => simp
    | some tickEnd =>
      simp only [Option.map_some, Option.getD_some]
      omega
  kept t ht now trigger := by
    obtain ⟨hin, hpending, opened, hopened, rfl⟩ := nextFireAt_eq_some.mp ht
    have hfields : (w.scheduler.trigger now trigger).1.inTick = w.scheduler.inTick ∧
        (w.scheduler.trigger now trigger).1.lastTickEnd = w.scheduler.lastTickEnd ∧
        (w.scheduler.trigger now trigger).1.windowOpenedAt =
          w.scheduler.windowOpenedAt.or (some now) := by
      cases trigger <;> exact ⟨rfl, rfl, rfl⟩
    have hpending' : (w.scheduler.trigger now trigger).1.hasPending = true := by
      cases trigger <;> simp [SyncScheduler.trigger, SyncScheduler.remember, SyncScheduler.hasPending]
    have hfloor : (w.scheduler.trigger now trigger).1.floorDuration ≤ w.scheduler.floorDuration :=
      floorDuration_remember hpending trigger
    refine ⟨_, nextFireAt_eq_some.mpr ⟨hfields.1.trans hin, hpending', opened, ?_, rfl⟩, ?_⟩
    · rw [hfields.2.2, hopened]
      rfl
    · rw [hfields.2.1]
      cases w.scheduler.lastTickEnd with
      | none => exact Nat.le_refl _
      | some tickEnd =>
        simp only [Option.map_some, Option.getD_some]
        omega
  begins now hbegan := by
    obtain ⟨hnot, -⟩ | ⟨t, ht, hle, -⟩ := tryBeginTick_cases w.scheduler now
    · rw [hnot] at hbegan
      cases hbegan
    · obtain ⟨hin, hpending, opened, hopened, rfl⟩ := nextFireAt_eq_some.mp ht
      refine ⟨h.inTick ▸ hin, ?_⟩
      rw [h.window] at hopened
      obtain ⟨first, hfirst, rfl⟩ := Option.map_eq_some_iff.mp hopened
      refine ⟨first, hfirst, by omega, fun tickEnd htickEnd => ?_⟩
      rw [h.lastTickEnd, htickEnd] at hle
      -- The floor of the pending work is that of the batch.
      have hfloor : (if w.batch.all (·.2.isRemote) then remoteFloor else localFloor) ≤
          w.scheduler.floorDuration := by
        have hlocal : w.scheduler.pendingLocal = !w.batch.all (·.2.isRemote) := by
          rw [h.pendingLocal, List.not_all_eq_any_not]
        cases hall : w.batch.all (·.2.isRemote) with
        | true =>
          rw [hall] at hlocal
          rw [SyncScheduler.hasPending, hlocal] at hpending
          have hremote : w.scheduler.pendingRemote = true := hpending
          simp [SyncScheduler.floorDuration, hlocal, hremote]
        | false =>
          rw [hall] at hlocal
          cases hremote : w.scheduler.pendingRemote <;>
            simp [SyncScheduler.floorDuration, hlocal, hremote, localFloor, remoteFloor, second]
      simp only [Option.map_some, Option.getD_some] at hle
      omega
  due t now ht hle := by
    obtain ⟨-, hlate⟩ | ⟨t, -, -, hbegan⟩ := tryBeginTick_cases w.scheduler now
    · exact absurd (hlate t ht) (Nat.not_lt.mpr hle)
    · rw [hbegan]

/-- After every sequence of calls the scheduler is safe. -/
theorem scheduler_safe (calls : List (Nat × Call)) : Safe (schedulerMachine.run calls) :=
  (remembers_run calls).safe

end TeamClu.Scheduler
