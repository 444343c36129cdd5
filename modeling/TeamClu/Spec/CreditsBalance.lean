import Mathlib.Algebra.BigOperators.Group.List.Basic
import Mathlib.Algebra.Order.BigOperators.Group.List
import Mathlib.Tactic.Linarith
import TeamClu.Native.Credits

/-!
# Credits are never overspent

In every reachable state the balance is the sum of the ledger and each key is recorded at most once (`Booked`).  The
signup grant is recorded at most once as long as all its keys spell the id of the team in the same way
(`signupGrants_step`).  Once a reservation has succeeded, charges within holds that are still held keep the balance
above what is held, whatever the other transactions do (`credits_safe`).
-/

namespace TeamClu.Credits

variable {a : Account}

/-! ## The books -/

/-- The rows under a key. -/
def rowsUnder (a : Account) (key : Str) : List LedgerRow := a.ledger.filter fun row => row.idempotencyKey == some key

/-- The books agree, and each key is in them at most once. -/
structure Booked (a : Account) : Prop where
  balance_eq : a.balance = a.ledgerCredits
  once : ∀ key, (rowsUnder a key).length ≤ 1

/-- A row without a key, such as a charge. -/
theorem Booked.post (h : Booked a) {row : LedgerRow} (hkey : row.idempotencyKey = none) :
    Booked (a.post row) where
  balance_eq := by
    have := h.balance_eq
    simp only [Account.post, Account.balance, Account.ledgerCredits, Option.getD_some, List.map_append,
      List.sum_append, List.map_cons, List.map_nil, List.sum_singleton] at this ⊢
    rw [this]
  once key := by
    have := h.once key
    simpa [rowsUnder, Account.post, List.filter_append, hkey] using this

/-- A key that the index does not hold has no row. -/
theorem key_ne_of_not_hasKey {key : Str} (h : ¬ a.hasKey key = true) {row : LedgerRow} (hrow : row ∈ a.ledger) :
    row.idempotencyKey ≠ some key :=
  fun heq => h (List.any_eq_true.mpr ⟨row, hrow, by simpa using heq⟩)

/-- A row under a key goes in once. -/
theorem Booked.postOnce (h : Booked a) (row : LedgerRow) (key : Str) :
    Booked (a.postOnce row key) := by
  unfold Account.postOnce
  split
  · -- a row under a key that is there changes nothing
    exact h
  · next hnew =>
    refine ⟨?_, fun other => ?_⟩
    · -- the balance and the ledger grow by the same credits
      have := h.balance_eq
      simp only [Account.post, Account.balance, Account.ledgerCredits, Option.getD_some,
        List.map_append, List.sum_append, List.map_cons, List.map_nil, List.sum_singleton] at this ⊢
      rw [this]
    · by_cases hkey : key = other
      · -- the key is new: its row is the only one
        have hnone : rowsUnder a key = [] :=
          List.filter_eq_nil_iff.mpr fun row hrow heq => key_ne_of_not_hasKey hnew hrow (by simpa using heq)
        subst hkey
        rw [rowsUnder] at hnone
        simp [rowsUnder, Account.post, List.filter_append, hnone]
      · -- the row is under another key
        have := h.once other
        simpa [rowsUnder, Account.post, List.filter_append, hkey] using this

/-- Reservations are not in the books. -/
theorem Booked.congr {b : Account} (h : Booked a) (hbalance : b.balanceCredits = a.balanceCredits)
    (hledger : b.ledger = a.ledger) : Booked b where
  balance_eq := by
    have := h.balance_eq
    simpa only [Account.balance, Account.ledgerCredits, hbalance, hledger] using this
  once key := by
    have := h.once key
    simpa only [rowsUnder, hledger] using this

/-- How `reserve` ends: the team keeps its first grant unless the hold is refused by the table. -/
theorem reserve_cases (a : Account) (tables : QuotaTables) (input : ReserveInput) :
    (reserve a tables input).1 = firstContact a tables input.teamId ∧
        (∀ id, (reserve a tables input).2 ≠ .ok id) ∨
      reserve a tables input = (a, .checkViolation) ∨
      input.holdCredits ≤ (firstContact a tables input.teamId).balance - (firstContact a tables input.teamId).held ∧
        0 ≤ input.holdCredits ∧
        ∃ row : Reservation, (row.amountCredits : Int) = input.holdCredits ∧ row.state = .held ∧
          reserve a tables input = ({ firstContact a tables input.teamId with
            reservations := (firstContact a tables input.teamId).reservations ++ [row] }, .ok row.id) := by
  unfold reserve
  dsimp only
  split
  · exact .inl ⟨rfl, nofun⟩
  · next hcovered =>
    split
    · exact .inl ⟨rfl, nofun⟩
    · split
      · exact .inr (.inl rfl)
      · next hhold =>
        exact .inr (.inr ⟨by omega, by omega, _, Int.toNat_of_nonneg (by omega), rfl, rfl⟩)

theorem Booked.firstContact (h : Booked a) (tables : QuotaTables) (teamId : Str) :
    Booked (firstContact a tables teamId) := by
  unfold Credits.firstContact
  split
  · exact h.postOnce _ _
  · exact h

theorem Booked.reserve (h : Booked a) (tables : QuotaTables) (input : ReserveInput) :
    Booked (reserve a tables input).1 := by
  obtain ⟨heq, -⟩ | heq | ⟨-, -, row, -, -, heq⟩ := reserve_cases a tables input
  · rw [heq]
    exact h.firstContact tables input.teamId
  · rw [heq]
    exact h
  · rw [heq]
    exact (h.firstContact tables input.teamId).congr rfl rfl

theorem Booked.settle (h : Booked a) (input : SettleInput) : Booked (settle a input) := by
  have hcharged : Booked (if 0 < input.credits then
      a.post { kind := .usage, amountCredits := -input.credits, actorId := input.actorId
               usageLogId := some input.usageLogId } else a) := by
    split
    · exact h.post rfl
    · exact h
  unfold Credits.settle
  dsimp only
  split
  · exact hcharged.congr rfl rfl
  · exact hcharged

/-- Every transaction keeps the books. -/
theorem Booked.step (h : Booked a) (e : CreditEvent) : Booked (a.step e) := by
  cases e with
  | reserve tables input =>
    simp only [Account.step]
    split
    · exact h.reserve tables input
    · exact h
  | settle input => exact h.settle input
  | release id =>
    cases id with
    | none => exact h
    | some id => exact h.congr rfl rfl
  | sweepExpired now => exact h.congr rfl rfl
  | topUp input =>
    show Booked (applyTopUp a input)
    unfold applyTopUp
    split
    · exact h.postOnce _ _
    · exact h
  | backfill amount =>
    show Booked (backfillSignupGrant a amount)
    unfold backfillSignupGrant
    split
    · exact h
    · exact h.postOnce _ _

/-! ## The signup grant -/

/-- The key is one of the signup grant of the team, in some spelling of its id. -/
def isSignupKey (teamId key : Str) : Bool :=
  let spelling := key.drop "signup_grant:".length
  key == signupKey spelling && (spelling == teamId || uuidOf spelling == some teamId)

/-- The rows under a key of the signup grant. -/
def signupGrants (a : Account) : List LedgerRow :=
  a.ledger.filter fun row => row.idempotencyKey.any (isSignupKey a.teamId)

/-- The key under which a transaction would record a signup grant. -/
def grantKey? (a : Account) : CreditEvent → Option Str
  | .reserve tables input =>
    if a.isNamed input.teamId && findsNoRow a tables then some (signupKey input.teamId) else none
  | .backfill amount => if 0 < amount then some (signupKey a.teamId) else none
  | .topUp input =>
    if acceptsTopUp input && isSignupKey a.teamId input.idempotencyKey then some input.idempotencyKey else none
  | _ => none

/-- A signup grant that is already recorded spells the id of the team as the next one does. -/
def OneSpelling (a : Account) (e : CreditEvent) : Prop :=
  ∀ key ∈ grantKey? a e, ∀ row ∈ signupGrants a, row.idempotencyKey = some key

instance (a : Account) (e : CreditEvent) : Decidable (OneSpelling a e) :=
  inferInstanceAs (Decidable (∀ key ∈ grantKey? a e, ∀ row ∈ signupGrants a, row.idempotencyKey = some key))

/-- A row under a key of the grant goes in only when there is none under another. -/
theorem signupGrants_postOnce (h : (signupGrants a).length ≤ 1) (row : LedgerRow) {key : Str}
    (hsame : isSignupKey a.teamId key = true → ∀ row ∈ signupGrants a, row.idempotencyKey = some key) :
    (signupGrants (a.postOnce row key)).length ≤ 1 := by
  unfold Account.postOnce
  split
  · exact h
  · next hnew =>
    cases hkey : isSignupKey a.teamId key with
    | true =>
      have hnone : signupGrants a = [] := by
        refine List.eq_nil_iff_forall_not_mem.mpr fun row hrow => ?_
        exact key_ne_of_not_hasKey hnew (List.mem_filter.mp hrow).1 (hsame hkey row hrow)
      rw [signupGrants] at hnone
      simp only [signupGrants, Account.post, List.filter_append, hnone, List.nil_append]
      exact List.length_filter_le _ _
    | false => simpa [signupGrants, Account.post, List.filter_append, hkey] using h

/-- A transaction that spells the id as the grant before it leaves at most one. -/
theorem signupGrants_step (h : (signupGrants a).length ≤ 1) {e : CreditEvent} (hsame : OneSpelling a e) :
    (signupGrants (a.step e)).length ≤ 1 := by
  cases e with
  | reserve tables input =>
    simp only [Account.step]
    split
    case isFalse => exact h
    next hnamed =>
    have hgranted : (signupGrants (firstContact a tables input.teamId)).length ≤ 1 := by
      unfold firstContact
      split
      · next hfinds => exact signupGrants_postOnce h _ fun _ => hsame _ (by simp [grantKey?, hnamed, hfinds])
      · exact h
    obtain ⟨heq, -⟩ | heq | ⟨-, -, row, -, -, heq⟩ := reserve_cases a tables input
    · rwa [heq]
    · rwa [heq]
    · rw [heq]
      exact hgranted
  | settle input =>
    have hcharged : signupGrants (a.step (.settle input)) = signupGrants a := by
      simp only [Account.step, settle]
      split <;> split <;> simp [signupGrants, Account.closeReservation, Account.post, List.filter_append]
    rwa [hcharged]
  | release id => cases id <;> exact h
  | sweepExpired now => exact h
  | topUp input =>
    simp only [Account.step, applyTopUp]
    split
    · next haccepts => exact signupGrants_postOnce h _ fun hkey => hsame _ (by simp [grantKey?, haccepts, hkey])
    · exact h
  | backfill amount =>
    simp only [Account.step, backfillSignupGrant]
    split
    · exact h
    · next hpositive => exact signupGrants_postOnce h _ fun _ => hsame _ (by simp [grantKey?]; omega)

/-! ## What is held -/

/-- What can still be reserved. -/
def available (a : Account) : Int := a.balance - a.held

/-- Held credits are those of the list of reservations. -/
private def heldOf (rs : List Reservation) : Int :=
  ((rs.filter fun r => r.state == .held).map fun r => (r.amountCredits : Int)).sum

private theorem held_eq (a : Account) : a.held = heldOf a.reservations := by
  simp [Account.held, Account.heldBy, heldOf]

private theorem heldOf_cons (r : Reservation) (rs : List Reservation) :
    heldOf (r :: rs) = (if r.state = .held then (r.amountCredits : Int) else 0) + heldOf rs := by
  by_cases h : r.state = .held <;> simp [heldOf, h]

/-- Closing reservations releases what they held. -/
private theorem heldOf_map_le {close : Reservation → Reservation}
    (hclose : ∀ r, close r = r ∨ (close r).state ≠ .held) (rs : List Reservation) :
    heldOf (rs.map close) ≤ heldOf rs := by
  induction rs with
  | nil => rfl
  | cons r rs ih =>
    rw [List.map_cons, heldOf_cons, heldOf_cons]
    rcases hclose r with h | h
    · rw [h]
      omega
    · rw [if_neg h]
      split <;> omega

/-- Closing a reservation that is held releases its amount. -/
private theorem heldOf_map_add_le {close : Reservation → Reservation}
    (hclose : ∀ r, close r = r ∨ (close r).state ≠ .held) {rs : List Reservation} {r : Reservation}
    (hmem : r ∈ rs) (hheld : r.state = .held) (hr : (close r).state ≠ .held) :
    heldOf (rs.map close) + r.amountCredits ≤ heldOf rs := by
  induction rs with
  | nil => exact nomatch hmem
  | cons x rs ih =>
    rw [List.map_cons, heldOf_cons, heldOf_cons]
    rcases List.mem_cons.mp hmem with rfl | hmem
    · have := heldOf_map_le hclose rs
      rw [if_neg hr, if_pos hheld]
      omega
    · have := ih hmem
      rcases hclose x with h | h
      · rw [h]
        omega
      · rw [if_neg h]
        split <;> omega

/-- Closing by id changes no reservation, or leaves it closed. -/
private theorem close_cases (id : Nat) (state : ReservationState) (hstate : state ≠ .held)
    (r : Reservation) :
    (if r.id = id ∧ r.state = .held then { r with state } else r) = r ∨
      (if r.id = id ∧ r.state = .held then { r with state } else r).state ≠ .held := by
  split
  · exact .inr hstate
  · exact .inl rfl

/-- Releasing a hold frees credits. -/
theorem available_closeReservation (a : Account) (id : Nat) {state : ReservationState}
    (hstate : state ≠ .held) : available a ≤ available (a.closeReservation id state) := by
  have := heldOf_map_le (close_cases id _ hstate) a.reservations
  rw [available, available, held_eq, held_eq]
  simp only [Account.closeReservation, Account.balance] at this ⊢
  omega

/-! ## Transactions within their holds -/

/-- A charge stays within a hold that is still held; refunds and adjustments are excluded. -/
def WithinHold (a : Account) : CreditEvent → Prop
  | .settle input => 0 < input.credits →
      ∃ r ∈ a.reservations, input.reservationId = some r.id ∧ r.state = .held ∧
        input.credits ≤ r.amountCredits
  | .topUp input => input.kind = .topUp ∨ input.kind = .grant
  | _ => True

theorem available_postOnce (a : Account) {row : LedgerRow} (key : Str) (hrow : 0 ≤ row.amountCredits) :
    available a ≤ available (a.postOnce row key) := by
  unfold Account.postOnce
  split
  · exact le_refl _
  · simp only [available, Account.post, Account.balance, Option.getD_some, Account.held, Account.heldBy]
    omega

theorem available_settle {input : SettleInput} (h : WithinHold a (.settle input)) :
    available a ≤ available (settle a input) := by
  unfold settle
  dsimp only
  by_cases hcredits : 0 < input.credits
  · obtain ⟨r, hmem, hid, hheld, hle⟩ := h hcredits
    have hreleased := heldOf_map_add_le (close_cases r.id .settled nofun) hmem hheld
      (by simp [hheld])
    rw [if_pos hcredits, hid]
    rw [available, available, held_eq, held_eq]
    simp only [Account.closeReservation, Account.post, Account.balance, Option.getD_some]
      at hreleased ⊢
    omega
  · rw [if_neg hcredits]
    split
    · exact available_closeReservation a _ nofun
    · exact le_refl _

theorem available_sweepExpired (a : Account) (now : Nat) :
    available a ≤ available (sweepExpired a now) := by
  have := @heldOf_map_le (fun r =>
    if r.state = .held ∧ r.expiresAt < now then { r with state := .expired } else r) (fun r => by
      split
      · exact .inr nofun
      · exact .inl rfl) a.reservations
  rw [available, available, held_eq, held_eq]
  simp only [sweepExpired, Account.balance] at this ⊢
  omega

theorem available_firstContact (a : Account) (tables : QuotaTables) (teamId : Str) :
    available a ≤ available (firstContact a tables teamId) := by
  unfold firstContact
  split
  · exact available_postOnce a _ (by decide)
  · exact le_refl _

private theorem heldOf_append_singleton (rs : List Reservation) {r : Reservation}
    (hheld : r.state = .held) : heldOf (rs ++ [r]) = heldOf rs + r.amountCredits := by
  simp [heldOf, List.filter_append, hheld]

/-- A new hold is covered by what was available. -/
theorem available_of_reserve_ok {tables : QuotaTables} {input : ReserveInput} {id : Nat}
    (h : (reserve a tables input).2 = .ok id) : 0 ≤ available (reserve a tables input).1 := by
  obtain ⟨-, hne⟩ | heq | ⟨hcovered, -, row, hamount, hheld, heq⟩ := reserve_cases a tables input
  · exact absurd h (hne id)
  · rw [heq] at h
    exact nomatch h
  · rw [heq, available, held_eq]
    rw [held_eq] at hcovered
    simp only [heldOf_append_singleton _ hheld, Account.balance] at hcovered ⊢
    omega

/-- A transaction within its hold keeps the available credits above zero. -/
theorem available_step {e : CreditEvent} (h : WithinHold a e) (ha : 0 ≤ available a) :
    0 ≤ available (a.step e) := by
  cases e with
  | reserve tables input =>
    simp only [Account.step]
    split
    case isFalse => exact ha
    -- a reservation holds what it takes from the balance
    obtain ⟨heq, -⟩ | heq | ⟨-, -, row, -, -, heq⟩ := reserve_cases a tables input
    · rw [heq]
      exact ha.trans (available_firstContact a tables input.teamId)
    · rwa [heq]
    · exact @available_of_reserve_ok a tables input row.id (by rw [heq])
  -- a settlement within its hold takes no more than was held
  | settle input => exact ha.trans (available_settle h)
  -- giving a hold back adds to what is available
  | release id =>
    cases id with
    | none => exact ha
    | some id => exact ha.trans (available_closeReservation a id nofun)
  | sweepExpired now => exact ha.trans (available_sweepExpired a now)
  | topUp input =>
    show 0 ≤ available (applyTopUp a input)
    unfold applyTopUp
    split
    · -- a top-up that is neither a refund nor an adjustment is positive
      next haccepts =>
      refine ha.trans (available_postOnce a _ ?_)
      unfold acceptsTopUp at haccepts
      rcases h with hkind | hkind <;> simp_all
    · exact ha
  | backfill amount =>
    show 0 ≤ available (backfillSignupGrant a amount)
    unfold backfillSignupGrant
    split
    · exact ha
    · -- and so is a grant
      next hpositive => exact ha.trans (available_postOnce a _ (by simp only; omega))

/-! ## Runs -/

/-- The transaction is a reservation that succeeds. -/
def Reserves (a : Account) : CreditEvent → Prop
  | .reserve tables input => a.isNamed input.teamId = true ∧ ∃ id, (reserve a tables input).2 = .ok id
  | _ => False

theorem available_of_reserves {e : CreditEvent} (h : Reserves a e) : 0 ≤ available (a.step e) := by
  cases e with
  | reserve tables input =>
    obtain ⟨hnamed, id, hid⟩ := h
    simp only [Account.step, if_pos hnamed]
    exact available_of_reserve_ok hid
  | _ => exact h.elim

/-- In every run the balance is the sum of the ledger and each key is recorded at most once; the signup grant is
    recorded at most once if it is always spelled in one way; and after a reservation that succeeded, transactions
    within their holds leave the balance at or above what is held. -/
theorem credits_safe (teamId : Str) (events : List CreditEvent) :
    let run := (creditMachine teamId).run events
    (run.balance = run.ledgerCredits ∧ ∀ key, (rowsUnder run key).length ≤ 1) ∧
      ((creditMachine teamId).Steps OneSpelling { teamId } events → (signupGrants run).length ≤ 1) ∧
      ∀ e later, Reserves run e → (creditMachine teamId).Steps WithinHold (run.step e) later →
        0 ≤ available ((creditMachine teamId).run (events ++ e :: later)) := by
  have hbooked : Booked ((creditMachine teamId).run events) :=
    Machine.invariant_runFrom (G := fun _ _ => True) (fun _ e h _ => h.step e)
      ⟨rfl, fun _ => Nat.zero_le _⟩ (Machine.steps_true _ _ events)
  refine ⟨⟨hbooked.balance_eq, hbooked.once⟩, fun hsame => ?_, fun e later he hlater => ?_⟩
  · exact Machine.invariant_runFrom (I := fun a => (signupGrants a).length ≤ 1)
      (fun _ _ h hstep => signupGrants_step h hstep) (Nat.zero_le _) hsame
  · rw [Machine.run, Machine.runFrom_append, Machine.runFrom_cons]
    refine Machine.invariant_runFrom (I := fun a => 0 ≤ available a) (fun _ _ ha h => available_step h ha)
      ?_ hlater
    exact available_of_reserves he

/-! ## A request of a new team -/

/-- The id of a team. -/
def teamUuid : Str := "0f8fad5b-d9cb-469f-a165-70867728950e".toList

/-- A member of a team without quotas asks for a hold of 500. -/
def firstRequest (teamId : Str) : CreditEvent :=
  .reserve { now := 0, periodStart := fun _ => 0 }
    { teamId, actorId := "actor".toList, actorType := "user".toList, holdCredits := 500 }

/-- The request is charged 320. -/
def firstCharge : CreditEvent :=
  .settle { reservationId := some 0, actorId := some "actor".toList, credits := 320
            usageLogId := "usage".toList }

/-- A team gets its grant with its first request, and is charged within the hold; the backfill grants nothing more. -/
theorem credits_safe_firstRequest :
    (signupGrants ((creditMachine teamUuid).run [firstRequest teamUuid, .backfill 10000000])).length ≤ 1 ∧
      0 ≤ available ((creditMachine teamUuid).run [firstRequest teamUuid, firstCharge]) := by
  refine ⟨(credits_safe teamUuid [firstRequest teamUuid, .backfill 10000000]).2.1 (by decide +kernel),
    (credits_safe teamUuid []).2.2 (firstRequest teamUuid) [firstCharge] ⟨by decide +kernel, 0, by decide +kernel⟩
      ⟨?_, trivial⟩⟩
  intro _
  exact ⟨{ id := 0, actorId := "actor".toList, amountCredits := 500, expiresAt := 600 },
    by decide +kernel, rfl, rfl, by decide⟩

/-- The first request spells the id in upper case, and the backfill grants once more. -/
theorem signup_granted_twice :
    let run := (creditMachine teamUuid).run
      [firstRequest "0F8FAD5B-D9CB-469F-A165-70867728950E".toList, .backfill 10000000]
    (signupGrants run).length = 2 ∧ run.balance = 20000000 := by
  decide +kernel

end TeamClu.Credits
