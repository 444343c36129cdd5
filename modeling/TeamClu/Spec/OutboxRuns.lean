import TeamClu.ForStd.TreeMap
import TeamClu.Native.Outbox

/-!
# Runs of the outbox

The leases keep two attempts off one message, and a row that is not being attempted can be offered
again, in every run in which the app is not killed while a stored row is in flight and no save of a
result fails behind a mark that was saved (`outbox_safe`).  The mark is stored before the send and
only undone by the code behind it, so a kill in between strands the row
(`outbox_strands_inFlight`).
-/

namespace TeamClu.Outbox

/-! ## What a run should keep -/

/-- A loop attempts a message, under its lease. -/
def Running (w : World) (i : Nat) (messageID : Str) : Prop :=
  ∃ phase, (w.loops i).attempt = some (messageID, phase)

/-- What should hold of every state. -/
structure Safe (w : World) : Prop where
  /-- A row that is not being attempted is pending, delivered or failed. -/
  settled : ∀ messageID row, w.store[messageID]? = some row → (∀ i, ¬ Running w i messageID) →
    row.state = .pending ∨ row.state = .delivered ∨ row.state = .failed
  /-- One that is neither delivered nor failed is offered again when it is due. -/
  offered : ∀ messageID row, w.store[messageID]? = some row → (∀ i, ¬ Running w i messageID) →
    row.state ≠ .delivered → row.state ≠ .failed →
      ∀ now, (∀ next ∈ row.nextAttemptAt, next ≤ now) → messageID ∈ fetchDue w.store now
  /-- A message has at most one attempt. -/
  once : ∀ i j messageID, Running w i messageID → Running w j messageID → i = j
  /-- The budget is kept. -/
  bounded : ∀ (messageID : Str) row, w.store[messageID]? = some row →
    row.attemptCount ≤ maxAttempts

/-- A step leaves the delivered rows delivered. -/
def KeepsDelivered (w : World) (e : Event) : Prop :=
  ∀ (messageID : Str) row, w.store[messageID]? = some row → row.state = .delivered →
    ∃ row', (step w e).store[messageID]? = some row' ∧ row'.state = .delivered

/-- No stored row is in flight. -/
def noneInFlight (w : World) : Bool := w.store.toList.all fun e => e.2.state ≠ .inFlight

/-- The stored row of the message that a loop attempts is in flight. -/
def markStored (w : World) (i : Nat) : Bool :=
  (w.loops i).attempt.any fun a => w.store[a.1]?.any fun row => row.state = .inFlight

/-- Steps that strand no row: no kill while a stored row is in flight, and no failing save of a
    result when the mark is stored. -/
def Careful (w : World) : Event → Prop
  | .kill => noneInFlight w = true
  | .attachments i _ saved => saved = true ∨ markStored w i = false
  | .outcome i _ _ saved => saved = true ∨ markStored w i = false
  | _ => True

instance (w : World) (e : Event) : Decidable (Careful w e) := by
  cases e <;> unfold Careful <;> infer_instance

/-! ## The invariant -/

/-- A row that may still be sent, with budget left. -/
def Sendable (row : OutboxMessage) : Prop := row.state = .pending ∨ row.state = .inFlight

/-- The phases between the mark and the result. -/
def Marked (phase : Phase) (row : OutboxMessage) : Prop := phase = .waiting row ∨ phase = .sending row

/-- The leases and the rows in a run. -/
structure Inv (w : World) : Prop where
  /-- An attempt has its lease, whose release is not spawned. -/
  held : ∀ i messageID phase, (w.loops i).attempt = some (messageID, phase) →
    messageID ∈ w.activeMessageIDs ∧ messageID ∉ w.releases
  once : ∀ i j messageID, Running w i messageID → Running w j messageID → i = j
  /-- A lease is released once. -/
  releases : w.releases.Nodup ∧ ∀ messageID ∈ w.releases, messageID ∈ w.activeMessageIDs
  /-- The budget of the stored rows. -/
  rows : ∀ (messageID : Str) row, w.store[messageID]? = some row →
    row.attemptCount ≤ maxAttempts ∧ (Sendable row → row.attemptCount < maxAttempts)
  /-- A stored row that is in flight is being attempted. -/
  inFlight : ∀ (messageID : Str) row, w.store[messageID]? = some row → row.state = .inFlight →
    ∃ i phase snapshot, (w.loops i).attempt = some (messageID, phase) ∧ Marked phase snapshot
  /-- The row that an attempt holds has budget left, and the stored one may still be sent. -/
  snapshots : ∀ i messageID phase snapshot, (w.loops i).attempt = some (messageID, phase) →
    Marked phase snapshot → snapshot.attemptCount < maxAttempts ∧
      ∃ row, w.store[messageID]? = some row ∧ Sendable row

theorem Inv.init : Inv {} where
  held := fun _ _ _ h => (by cases h)
  once := fun _ _ _ h => (by obtain ⟨_, h⟩ := h; cases h)
  releases := ⟨List.nodup_nil, fun _ h => absurd h List.not_mem_nil⟩
  rows := fun _ _ h => by simp at h
  inFlight := fun _ _ h => by simp at h
  snapshots := fun _ _ _ _ h => (by cases h)

/-- After a kill nothing runs; the rows stay. -/
theorem Inv.kill {w : World} (h : Inv w) (hnone : noneInFlight w = true) :
    Inv { store := w.store } where
  held := fun _ _ _ h => (by cases h)
  once := fun _ _ _ h => (by obtain ⟨_, h⟩ := h; cases h)
  releases := ⟨List.nodup_nil, fun _ h => absurd h List.not_mem_nil⟩
  rows := h.rows
  inFlight := by
    intro messageID row hrow hstate
    have := List.all_eq_true.mp hnone (messageID, row) (TreeMap.mem_toList.mpr hrow)
    exact absurd hstate (of_decide_eq_true this)
  snapshots := fun _ _ _ _ h => (by cases h)

/-- What the invariant gives in every state. -/
theorem Inv.safe {w : World} (h : Inv w) : Safe w := by
  have hsettled : ∀ messageID row, w.store[messageID]? = some row →
      (∀ i, ¬ Running w i messageID) → row.state ≠ .inFlight := by
    intro messageID row hrow hidle hstate
    obtain ⟨i, phase, _, hi, -⟩ := h.inFlight messageID row hrow hstate
    exact hidle i ⟨phase, hi⟩
  refine ⟨?_, ?_, h.once, fun messageID row hrow => (h.rows messageID row hrow).1⟩
  · intro messageID row hrow hidle
    have := hsettled messageID row hrow hidle
    cases hstate : row.state <;> simp_all
  · intro messageID row hrow hidle hdelivered hfailed now hnow
    have hinFlight := hsettled messageID row hrow hidle
    have hpending : row.state = .pending := by
      cases hstate : row.state <;> simp_all
    have hdue : isDue row now = true := by
      rw [isDue, Bool.and_eq_true, decide_eq_true_eq]
      refine ⟨hpending, ?_⟩
      cases hnext : row.nextAttemptAt with
      | none => rfl
      | some next => exact decide_eq_true (hnow next hnext)
    refine List.mem_map.mpr ⟨(messageID, row), ?_, rfl⟩
    rw [List.mem_insertionSort, List.mem_filter]
    exact ⟨TreeMap.mem_toList.mpr hrow, hdue⟩

/-! ## Steps of an attempt -/

@[simp] theorem save_loops (w : World) (saved : Bool) (messageID : Str) (row : OutboxMessage) :
    (w.save saved messageID row).loops = w.loops := by
  unfold World.save
  split <;> rfl

@[simp] theorem save_activeMessageIDs (w : World) (saved : Bool) (messageID : Str)
    (row : OutboxMessage) : (w.save saved messageID row).activeMessageIDs = w.activeMessageIDs := by
  unfold World.save
  split <;> rfl

@[simp] theorem save_releases (w : World) (saved : Bool) (messageID : Str) (row : OutboxMessage) :
    (w.save saved messageID row).releases = w.releases := by
  unfold World.save
  split <;> rfl

/-- The row that is saved, when the save goes through. -/
theorem save_store (w : World) (saved : Bool) (messageID m : Str) (row : OutboxMessage) :
    (w.save saved messageID row).store[m]? =
      if saved = true ∧ messageID = m then some row else w.store[m]? := by
  unfold World.save
  cases saved with
  | false => simp
  | true =>
    rw [if_pos rfl, TreeMap.get_insert]
    simp

/-- The attempts after one of them has moved on. -/
theorem moveOn_attempt (w : World) (i : Nat) (messageID : Str) (next : Option Phase) (j : Nat) :
    ((w.moveOn i messageID next).loops j).attempt =
      if j = i then next.map (messageID, ·) else (w.loops j).attempt := by
  unfold World.moveOn
  by_cases hj : j = i
  · subst hj
    simp
  · simp only [Function.update_of_ne hj, if_neg hj]

/-- An attempt moves on, and its row may be saved. -/
theorem Inv.moveOn {w : World} (h : Inv w) {i : Nat} {messageID : Str} {phase : Phase}
    (hi : (w.loops i).attempt = some (messageID, phase)) {saved : Bool} {row : OutboxMessage}
    {next : Option Phase}
    (hrow : ∀ r, (w.save saved messageID row).store[messageID]? = some r →
      r.attemptCount ≤ maxAttempts ∧ (Sendable r → r.attemptCount < maxAttempts) ∧
        (r.state = .inFlight → ∃ p ∈ next, ∃ snapshot, Marked p snapshot))
    (hnext : ∀ p ∈ next, ∀ snapshot, Marked p snapshot → snapshot.attemptCount < maxAttempts ∧
      ∃ r, (w.save saved messageID row).store[messageID]? = some r ∧ Sendable r) :
    Inv ((w.save saved messageID row).moveOn i messageID next) := by
  have hstore : ∀ m, m ≠ messageID → (w.save saved messageID row).store[m]? = w.store[m]? := by
    intro m hm
    rw [save_store, if_neg fun h => hm h.2.symm]
  have hother : ∀ j m p, j ≠ i → (w.loops j).attempt = some (m, p) → m ≠ messageID := by
    rintro j m p hj hjm rfl
    exact hj (h.once j i m ⟨p, hjm⟩ ⟨phase, hi⟩)
  -- an attempt of the new state is an old one of another message, or the one that moved on
  have hattempt : ∀ j m p, (((w.save saved messageID row).moveOn i messageID next).loops j).attempt =
      some (m, p) → (j = i ∧ m = messageID ∧ p ∈ next) ∨
        (j ≠ i ∧ m ≠ messageID ∧ (w.loops j).attempt = some (m, p)) := by
    intro j m p hj
    rw [moveOn_attempt, save_loops] at hj
    split at hj
    · next heq =>
      obtain ⟨q, hq, hpair⟩ := Option.map_eq_some_iff.mp hj
      obtain ⟨rfl, rfl⟩ := Prod.mk.inj hpair
      exact Or.inl ⟨heq, rfl, hq⟩
    · next hne => exact Or.inr ⟨hne, hother j m p hne hj, hj⟩
  have hreleases : ((w.save saved messageID row).moveOn i messageID next).releases =
      if next.isSome then w.releases else messageID :: w.releases := by
    unfold World.moveOn
    simp only [save_releases]
  have hactive : ((w.save saved messageID row).moveOn i messageID next).activeMessageIDs =
      w.activeMessageIDs := save_activeMessageIDs w saved messageID row
  obtain ⟨hheld, hfree⟩ := h.held i messageID phase hi
  refine ⟨?_, ?_, ?_, ?_, ?_, ?_⟩
  · intro j m p hj
    rw [hactive, hreleases]
    rcases hattempt j m p hj with ⟨-, rfl, hp⟩ | ⟨-, hm, hj⟩
    · rw [if_pos (Option.isSome_of_mem hp)]
      exact ⟨hheld, hfree⟩
    · refine ⟨(h.held j m p hj).1, ?_⟩
      have := (h.held j m p hj).2
      split
      · exact this
      · simp [hm, this]
  · rintro j k m ⟨p, hj⟩ ⟨q, hk⟩
    rcases hattempt j m p hj with ⟨rfl, hm, -⟩ | ⟨-, hm, hj⟩ <;>
      rcases hattempt k m q hk with ⟨rfl, hm', -⟩ | ⟨-, hm', hk⟩
    · rfl
    · exact absurd hm hm'
    · exact absurd hm' hm
    · exact h.once j k m ⟨p, hj⟩ ⟨q, hk⟩
  · rw [hactive, hreleases]
    split
    · exact h.releases
    · refine ⟨List.nodup_cons.mpr ⟨hfree, h.releases.1⟩, ?_⟩
      rw [List.forall_mem_cons]
      exact ⟨hheld, h.releases.2⟩
  · intro m r hr
    by_cases hm : m = messageID
    · subst hm
      exact ⟨(hrow r hr).1, (hrow r hr).2.1⟩
    · exact h.rows m r ((hstore m hm).symm.trans hr)
  · intro m r hr hstate
    by_cases hm : m = messageID
    · subst hm
      obtain ⟨p, hp, snapshot, hmarked⟩ := (hrow r hr).2.2 hstate
      refine ⟨i, p, snapshot, ?_, hmarked⟩
      rw [moveOn_attempt, if_pos rfl, hp]
      rfl
    · obtain ⟨j, p, snapshot, hj, hmarked⟩ := h.inFlight m r ((hstore m hm).symm.trans hr) hstate
      refine ⟨j, p, snapshot, ?_, hmarked⟩
      have hne : j ≠ i := by
        rintro rfl
        exact hm (Prod.mk.inj (Option.some.inj (hj.symm.trans hi))).1
      rw [moveOn_attempt, if_neg hne, save_loops, hj]
  · intro j m p snapshot hj hmarked
    rcases hattempt j m p hj with ⟨-, rfl, hp⟩ | ⟨-, hm, hj⟩
    · exact hnext p hp snapshot hmarked
    · obtain ⟨hcount, r, hr, hsend⟩ := h.snapshots j m p snapshot hj hmarked
      exact ⟨hcount, r, (hstore m hm).trans hr, hsend⟩

/-- An attempt moves on without a save. -/
theorem Inv.moveOn_unsaved {w : World} (h : Inv w) {i : Nat} {messageID : Str} {phase : Phase}
    (hi : (w.loops i).attempt = some (messageID, phase)) {next : Option Phase}
    (hrow : ∀ r, w.store[messageID]? = some r → r.state = .inFlight →
      ∃ p ∈ next, ∃ snapshot, Marked p snapshot)
    (hnext : ∀ p ∈ next, ∀ snapshot, Marked p snapshot → snapshot.attemptCount < maxAttempts ∧
      ∃ r, w.store[messageID]? = some r ∧ Sendable r) :
    Inv (w.moveOn i messageID next) :=
  @Inv.moveOn w h i messageID phase hi false { createdAt := 0 } next
    (fun r hr => ⟨(h.rows messageID r hr).1, (h.rows messageID r hr).2, hrow r hr⟩) hnext

/-- A row is in flight only under an attempt between the mark and the result. -/
theorem Inv.not_inFlight {w : World} (h : Inv w) {i : Nat} {messageID : Str} {phase : Phase}
    (hi : (w.loops i).attempt = some (messageID, phase)) (hphase : ∀ s, ¬ Marked phase s) :
    ∀ r, w.store[messageID]? = some r → r.state ≠ .inFlight := by
  intro r hr hstate
  obtain ⟨j, p, snapshot, hj, hmarked⟩ := h.inFlight messageID r hr hstate
  obtain rfl := h.once j i messageID ⟨p, hj⟩ ⟨phase, hi⟩
  rw [hi] at hj
  exact hphase snapshot ((Prod.mk.inj (Option.some.inj hj)).2 ▸ hmarked)

private theorem not_marked_leased (s : OutboxMessage) : ¬ Marked .leased s := by simp [Marked]

private theorem not_marked_notifying (s : OutboxMessage) : ¬ Marked .notifying s := by simp [Marked]

/-- An attempt that returns before the mark or behind the result. -/
theorem Inv.finish {w : World} (h : Inv w) {i : Nat} {messageID : Str} {phase : Phase}
    (hi : (w.loops i).attempt = some (messageID, phase)) (hphase : ∀ s, ¬ Marked phase s) :
    Inv (w.moveOn i messageID none) :=
  h.moveOn_unsaved hi (fun r hr hstate => absurd hstate (h.not_inFlight hi hphase r hr))
    (fun _ hp => (by cases hp))

/-- The row that is due is pending. -/
private theorem pending_of_isDue {row : OutboxMessage} {now : Nat} (h : isDue row now = true) :
    row.state = .pending := by
  rw [isDue, Bool.and_eq_true] at h
  exact of_decide_eq_true h.1

theorem Inv.mark {w : World} (h : Inv w) {i : Nat} {messageID : Str}
    (hi : (w.loops i).attempt = some (messageID, .leased)) (now : Nat) (service saved : Bool) :
    Inv (w.mark i messageID now service saved) := by
  unfold World.mark
  split
  · exact h.finish hi not_marked_leased
  split
  · exact h.finish hi not_marked_leased
  next row hrow =>
  split
  · exact h.finish hi not_marked_leased
  next hdue =>
  have hpending : row.state = .pending := pending_of_isDue (by simpa using hdue)
  have hbudget := h.rows messageID row hrow
  -- the row is pending, so it has an attempt left
  have hcount : (row.markInFlight now).attemptCount < maxAttempts := hbudget.2 (Or.inl hpending)
  have hstored : (w.save saved messageID (row.markInFlight now)).store[messageID]? =
      some (if saved then row.markInFlight now else row) := by
    rw [save_store]
    cases saved with
    | false => simpa using hrow
    | true => simp
  refine h.moveOn hi (fun r hr => ?_) (fun p hp snapshot hmarked => ?_)
  · rw [hstored, Option.some.injEq] at hr
    subst hr
    refine ⟨?_, fun _ => ?_, fun _ => ⟨_, rfl, row.markInFlight now, ?_⟩⟩
    · split
      · exact hcount.le
      · exact hbudget.1
    · split
      · exact hcount
      · exact hbudget.2 (Or.inl hpending)
    · unfold Marked
      split
      · exact Or.inl rfl
      · exact Or.inr rfl
  · obtain rfl : (if (row.markInFlight now).attachmentIDs.length > 0
        then Phase.waiting (row.markInFlight now) else .sending (row.markInFlight now)) = p :=
      Option.some.inj hp
    -- what the loop sends is the row as it was marked, whether or not the mark was saved
    have hsnapshot : snapshot = row.markInFlight now := by
      unfold Marked at hmarked
      split at hmarked <;> simpa [eq_comm] using hmarked
    refine ⟨hsnapshot ▸ hcount, _, hstored, ?_⟩
    split
    · exact Or.inr rfl
    · exact Or.inl hpending

/-- A failed send costs one attempt. -/
theorem settle_facts {row : OutboxMessage} (h : row.attemptCount < maxAttempts) (now : Nat)
    (outcome : SendOutcome) :
    (row.settle now outcome).attemptCount ≤ maxAttempts ∧
      (Sendable (row.settle now outcome) →
        (row.settle now outcome).attemptCount < maxAttempts) ∧
      (row.settle now outcome).state ≠ .inFlight := by
  unfold OutboxMessage.settle
  cases outcome with
  | sent => exact ⟨h.le, fun _ => h, by simp⟩
  | conflict => exact ⟨h.le, fun _ => h, by simp⟩
  | error text =>
    simp only
    split
    · exact ⟨h, fun hs => by simp [Sendable] at hs, by simp⟩
    · next hbudget => exact ⟨h, fun _ => Nat.lt_of_not_le hbudget, by simp⟩

/-- A result is saved, or the mark was not. -/
theorem Inv.result {w : World} (h : Inv w) {i : Nat} {messageID : Str} {phase : Phase}
    {row : OutboxMessage} (hi : (w.loops i).attempt = some (messageID, phase))
    {saved : Bool} {next : Option Phase} (hnext : ∀ p ∈ next, ∀ s, ¬ Marked p s)
    (hcareful : saved = true ∨ markStored w i = false)
    (hrow : row.attemptCount ≤ maxAttempts ∧ (Sendable row → row.attemptCount < maxAttempts) ∧
      row.state ≠ .inFlight) :
    Inv ((w.save saved messageID row).moveOn i messageID next) := by
  refine h.moveOn hi (fun r hr => ?_) (fun p hp s hmarked => absurd hmarked (hnext p hp s))
  rw [save_store] at hr
  split at hr
  · obtain rfl := Option.some.inj hr
    exact ⟨hrow.1, hrow.2.1, fun hstate => absurd hstate hrow.2.2⟩
  · next hunsaved =>
    refine ⟨(h.rows messageID r hr).1, (h.rows messageID r hr).2, fun hstate => ?_⟩
    rcases hcareful with hsaved | hmark
    · exact absurd ⟨hsaved, rfl⟩ hunsaved
    · simp [markStored, hi, hr, hstate] at hmark

/-! ## Steps of the store and the loops -/

/-- A row is added, or brought back after a failure. -/
theorem Inv.replace {w : World} (h : Inv w) {messageID : Str} {row : OutboxMessage}
    (hpending : row.state = .pending) (hcount : row.attemptCount = 0) :
    Inv { w with store := w.store.insert messageID row } := by
  have hbudget : row.attemptCount < maxAttempts := by
    rw [hcount]
    decide
  refine ⟨h.held, h.once, h.releases, ?_, ?_, ?_⟩
  · intro m r hr
    rw [TreeMap.get_insert] at hr
    split at hr
    · obtain rfl := Option.some.inj hr
      exact ⟨hbudget.le, fun _ => hbudget⟩
    · exact h.rows m r hr
  · intro m r hr hstate
    rw [TreeMap.get_insert] at hr
    split at hr
    · obtain rfl := Option.some.inj hr
      rw [hpending] at hstate
      cases hstate
    · exact h.inFlight m r hr hstate
  · intro i m p snapshot hi hmarked
    obtain ⟨hsnapshot, r, hr, hsend⟩ := h.snapshots i m p snapshot hi hmarked
    refine ⟨hsnapshot, ?_⟩
    rw [TreeMap.get_insert]
    split
    · exact ⟨row, rfl, Or.inl hpending⟩
    · exact ⟨r, hr, hsend⟩

/-- A loop gets other rows to attempt. -/
theorem Inv.setDue {w : World} (h : Inv w) (i : Nat) (due : List Str) :
    Inv { w with loops := Function.update w.loops i { w.loops i with due } } := by
  have hattempt : ∀ j, (Function.update w.loops i { w.loops i with due } j).attempt =
      (w.loops j).attempt := by
    intro j
    by_cases hj : j = i
    · subst hj
      rw [Function.update_self]
    · rw [Function.update_of_ne hj]
  refine ⟨?_, ?_, h.releases, h.rows, ?_, ?_⟩
  · exact fun j m p hj => h.held j m p ((hattempt j).symm.trans hj)
  · rintro j k m ⟨p, hj⟩ ⟨q, hk⟩
    exact h.once j k m ⟨p, (hattempt j).symm.trans hj⟩ ⟨q, (hattempt k).symm.trans hk⟩
  · intro m r hr hstate
    obtain ⟨j, p, snapshot, hj, hmarked⟩ := h.inFlight m r hr hstate
    exact ⟨j, p, snapshot, (hattempt j).trans hj, hmarked⟩
  · exact fun j m p snapshot hj => h.snapshots j m p snapshot ((hattempt j).symm.trans hj)

/-- A free lease is acquired. -/
theorem Inv.acquire {w : World} (h : Inv w) {i : Nat} {messageID : Str} (due : List Str)
    (hfree : messageID ∉ w.activeMessageIDs) (hidle : (w.loops i).attempt = none) :
    Inv { w with
      activeMessageIDs := messageID :: w.activeMessageIDs
      loops := Function.update w.loops i { due, attempt := some (messageID, .leased) } } := by
  have hattempt : ∀ j m p, (Function.update w.loops i
      { due, attempt := some (messageID, .leased) } j).attempt = some (m, p) →
        (j = i ∧ m = messageID ∧ p = .leased) ∨ (w.loops j).attempt = some (m, p) := by
    intro j m p hj
    by_cases hji : j = i
    · subst hji
      rw [Function.update_self] at hj
      obtain ⟨rfl, rfl⟩ := Prod.mk.inj (Option.some.inj hj)
      exact Or.inl ⟨rfl, rfl, rfl⟩
    · rw [Function.update_of_ne hji] at hj
      exact Or.inr hj
  -- no loop has the message, since its lease is free
  have hnone : ∀ j p, (w.loops j).attempt ≠ some (messageID, p) :=
    fun j p hj => hfree (h.held j messageID p hj).1
  refine ⟨?_, ?_, ?_, h.rows, ?_, ?_⟩
  · intro j m p hj
    rcases hattempt j m p hj with ⟨-, rfl, -⟩ | hj
    · exact ⟨List.mem_cons_self, fun hr => hfree (h.releases.2 _ hr)⟩
    · exact ⟨List.mem_cons_of_mem _ (h.held j m p hj).1, (h.held j m p hj).2⟩
  · rintro j k m ⟨p, hj⟩ ⟨q, hk⟩
    rcases hattempt j m p hj with ⟨hji, hm, -⟩ | hold <;>
      rcases hattempt k m q hk with ⟨hki, hm', -⟩ | hold'
    · exact hji.trans hki.symm
    · exact absurd (hm ▸ hold') (hnone k q)
    · exact absurd (hm' ▸ hold) (hnone j p)
    · exact h.once j k m ⟨p, hold⟩ ⟨q, hold'⟩
  · exact ⟨h.releases.1, fun m hm => List.mem_cons_of_mem _ (h.releases.2 m hm)⟩
  · intro m r hr hstate
    obtain ⟨j, p, snapshot, hj, hmarked⟩ := h.inFlight m r hr hstate
    have hne : j ≠ i := by
      rintro rfl
      rw [hidle] at hj
      cases hj
    exact ⟨j, p, snapshot, (congrArg Loop.attempt (Function.update_of_ne hne _ _)).trans hj, hmarked⟩
  · intro j m p snapshot hj hmarked
    rcases hattempt j m p hj with ⟨-, -, rfl⟩ | hj
    · exact absurd hmarked (not_marked_leased snapshot)
    · exact h.snapshots j m p snapshot hj hmarked

/-- A spawned release runs. -/
theorem Inv.release {w : World} (h : Inv w) {messageID : Str} (hmem : messageID ∈ w.releases) :
    Inv { w with
      activeMessageIDs := w.activeMessageIDs.erase messageID
      releases := w.releases.erase messageID } := by
  refine ⟨?_, h.once, ⟨h.releases.1.erase _, ?_⟩, h.rows, h.inFlight, h.snapshots⟩
  · intro i m p hi
    obtain ⟨hheld, hfree⟩ := h.held i m p hi
    have hne : m ≠ messageID := fun heq => hfree (heq ▸ hmem)
    exact ⟨(List.mem_erase_of_ne hne).mpr hheld, fun hr => hfree (List.mem_of_mem_erase hr)⟩
  · intro m hm
    obtain ⟨hne, hm⟩ := (h.releases.1.mem_erase_iff).mp hm
    exact (List.mem_erase_of_ne hne).mpr (h.releases.2 m hm)

/-! ## Runs -/

/-- A careful step keeps the invariant. -/
theorem Inv.step {w : World} (h : Inv w) (e : Event) (hcareful : Careful w e) : Inv (step w e) := by
  cases e with
  | enqueue messageID now saved =>
    rw [Outbox.step]
    split
    · unfold enqueue
      split
      · exact h
      · exact h.replace rfl rfl
    · exact h
  | retry messageID saved =>
    rw [Outbox.step]
    split
    · unfold retry
      split
      · exact h
      · split
        · exact h.replace rfl rfl
        · exact h
    · exact h
  | fetch i now =>
    rw [Outbox.step]
    split
    · next hloop =>
      have := h.setDue i (fetchDue w.store now)
      rwa [hloop] at this
    · exact h
  | stop i => exact h.setDue i []
  | acquire i =>
    rw [Outbox.step]
    split
    · next messageID due hloop =>
      split
      · have := h.setDue i due
        rwa [hloop] at this
      · next hfree => exact h.acquire due hfree (by rw [hloop])
    · exact h
  | mark i now service saved =>
    rw [Outbox.step]
    split
    · next messageID hi => exact h.mark hi now service saved
    · exact h
  | attachments i ready saved =>
    rw [Outbox.step]
    split
    · next messageID row hi =>
      have hsnapshot := h.snapshots i messageID _ row hi (Or.inl rfl)
      split
      · -- the attachments are there, and the row is sent
        refine h.moveOn_unsaved hi (fun r _ _ => ⟨_, rfl, row, Or.inr rfl⟩) fun p hp s hmarked => ?_
        obtain rfl := Option.some.inj hp
        have hs : s = row := by simpa [Marked, eq_comm] using hmarked
        exact hs ▸ hsnapshot
      · refine h.result hi (fun p hp => (by cases hp)) hcareful ⟨hsnapshot.1.le, ?_, ?_⟩
        · exact fun _ => hsnapshot.1
        · simp [OutboxMessage.failAttachments]
    · exact h
  | outcome i now outcome saved =>
    rw [Outbox.step]
    split
    · next messageID row hi =>
      have hsnapshot := h.snapshots i messageID _ row hi (Or.inr rfl)
      refine h.result hi (fun p hp => ?_) hcareful (settle_facts hsnapshot.1 now outcome)
      split at hp
      · obtain rfl := Option.some.inj hp
        exact not_marked_notifying
      · cases hp
    · exact h
  | notified i =>
    rw [Outbox.step]
    split
    · next messageID hi => exact h.finish hi not_marked_notifying
    · exact h
  | release messageID =>
    rw [Outbox.step]
    split
    · next hmem => exact h.release hmem
    · exact h
  | kill => exact h.kill hcareful

/-- A delivered row is not written by an attempt. -/
private theorem keepsDelivered_save {w : World} {messageID : Str} (saved : Bool)
    (row : OutboxMessage) (i : Nat) (next : Option Phase)
    (hold : ∀ r, w.store[messageID]? = some r → r.state ≠ .delivered) (m : Str)
    (r : OutboxMessage) (hr : w.store[m]? = some r) (hdelivered : r.state = .delivered) :
    ∃ row', ((w.save saved messageID row).moveOn i messageID next).store[m]? = some row' ∧
      row'.state = .delivered := by
  refine ⟨r, ?_, hdelivered⟩
  change (w.save saved messageID row).store[m]? = some r
  rw [save_store, if_neg]
  · exact hr
  · rintro ⟨-, rfl⟩
    exact hold r hr hdelivered

theorem Inv.keepsDelivered {w : World} (h : Inv w) (e : Event) : KeepsDelivered w e := by
  intro m r hr hdelivered
  -- a row that an attempt holds may still be sent
  have hheld : ∀ i messageID phase row, (w.loops i).attempt = some (messageID, phase) →
      Marked phase row → ∀ r', w.store[messageID]? = some r' → r'.state ≠ .delivered := by
    intro i messageID phase row hi hmarked r' hr' hstate
    obtain ⟨-, r'', hr'', hsend⟩ := h.snapshots i messageID phase row hi hmarked
    obtain rfl := Option.some.inj (hr'.symm.trans hr'')
    rw [Sendable, hstate] at hsend
    simp at hsend
  cases e with
  | enqueue messageID now saved =>
    rw [Outbox.step]
    split
    · unfold enqueue
      split
      · exact ⟨r, hr, hdelivered⟩
      · next hnew =>
        refine ⟨r, ?_, hdelivered⟩
        rw [TreeMap.get_insert, if_neg]
        · exact hr
        · rintro rfl
          rw [Std.ExtTreeMap.contains_eq_isSome_getElem?, hr] at hnew
          exact hnew rfl
    · exact ⟨r, hr, hdelivered⟩
  | retry messageID saved =>
    rw [Outbox.step]
    split
    · unfold retry
      split
      · exact ⟨r, hr, hdelivered⟩
      · next row hrow =>
        split
        · next hfailed =>
          refine ⟨r, ?_, hdelivered⟩
          rw [TreeMap.get_insert, if_neg]
          · exact hr
          · rintro rfl
            obtain rfl := Option.some.inj (hrow.symm.trans hr)
            rw [hfailed] at hdelivered
            cases hdelivered
        · exact ⟨r, hr, hdelivered⟩
    · exact ⟨r, hr, hdelivered⟩
  | mark i now service saved =>
    rw [Outbox.step]
    split
    · next messageID hi =>
      unfold World.mark
      split
      · exact ⟨r, hr, hdelivered⟩
      split
      · exact ⟨r, hr, hdelivered⟩
      next row hrow =>
      split
      · exact ⟨r, hr, hdelivered⟩
      next hdue =>
      refine keepsDelivered_save saved _ i _ (fun r' hr' hstate => ?_) m r hr hdelivered
      obtain rfl := Option.some.inj (hrow.symm.trans hr')
      rw [pending_of_isDue (by simpa using hdue)] at hstate
      cases hstate
    · exact ⟨r, hr, hdelivered⟩
  | attachments i ready saved =>
    rw [Outbox.step]
    split
    · next messageID row hi =>
      split
      · exact ⟨r, hr, hdelivered⟩
      · exact keepsDelivered_save saved _ i _ (hheld i messageID _ row hi (Or.inl rfl)) m r hr hdelivered
    · exact ⟨r, hr, hdelivered⟩
  | outcome i now outcome saved =>
    rw [Outbox.step]
    split
    · next messageID row hi =>
      exact keepsDelivered_save saved _ i _ (hheld i messageID _ row hi (Or.inr rfl)) m r hr hdelivered
    · exact ⟨r, hr, hdelivered⟩
  | fetch | acquire | notified | release | stop =>
    simp only [Outbox.step]
    repeat' split
    all_goals exact ⟨r, hr, hdelivered⟩
  | kill => exact ⟨r, hr, hdelivered⟩

/-- A run of careful steps strands no row, runs at most one attempt of a message, keeps the budget
    and leaves delivered rows delivered. -/
theorem outbox_safe (events : List Event) (h : outbox.Steps Careful outbox.init events) :
    Safe (outbox.run events) ∧ outbox.Steps KeepsDelivered outbox.init events :=
  have hinit : Inv outbox.init := Inv.init
  have hstep : ∀ w e, Inv w → Careful w e → Inv (outbox.step w e) := fun _ e hw hc => hw.step e hc
  ⟨(Machine.invariant_runFrom hstep hinit h).safe,
    Machine.Steps.of_invariant hstep (fun _ e hw _ => hw.keepsDelivered e) hinit h⟩

/-- A message whose first send fails, and the app is killed between two attempts. -/
def sampleRun : List Event :=
  [.enqueue "m".toList 0 true, .fetch 0 1, .acquire 0, .fetch 1 2, .acquire 1, .mark 0 3 true true,
    .outcome 0 4 (.error "offline".toList) true, .release "m".toList, .kill, .fetch 0 600, .acquire 0,
    .mark 0 601 true true, .outcome 0 602 .sent true, .notified 0]

/-- Its steps are careful. -/
theorem outbox_safe_sampleRun :
    outbox.Steps Careful outbox.init sampleRun ∧
      Safe (outbox.run sampleRun) ∧ outbox.Steps KeepsDelivered outbox.init sampleRun :=
  ⟨by decide, outbox_safe sampleRun (by decide +kernel)⟩

/-- A kill during the send leaves the row in flight, and nothing offers it again. -/
theorem outbox_strands_inFlight : ¬ ∀ events, Safe (outbox.run events) := by
  intro h
  have hrun := h [.enqueue "m".toList 0 true, .fetch 0 1, .acquire 0, .mark 0 2 true true, .kill]
  have hrow : ∃ row, (outbox.run [.enqueue "m".toList 0 true, .fetch 0 1, .acquire 0,
      .mark 0 2 true true, .kill]).store["m".toList]? = some row ∧ row.state = .inFlight :=
    ⟨{ createdAt := 0, state := .inFlight, lastAttemptAt := some 2 }, by decide, rfl⟩
  obtain ⟨row, hrow, hstate⟩ := hrow
  have hsettled := hrun.settled _ row hrow fun i hi => (by obtain ⟨p, hp⟩ := hi; cases hp)
  rw [hstate] at hsettled
  simp at hsettled

end TeamClu.Outbox
