import Mathlib.Algebra.BigOperators.Group.List.Basic
import Mathlib.Algebra.Order.BigOperators.Group.List
import Mathlib.Algebra.Order.Group.Int
import Mathlib.Data.List.Perm.Subperm
import TeamClu.Spec.PaymentsOnce

/-!
# What refunds take back

Each refund that succeeded is debited once, with its share of the charge rounded up.  So the refunds of a charge
take back at least their share of its credits, and more by less than one credit for each of them.  A charge that is
refunded in parts can so lose more than it bought (`refunded_in_thirds`).

## Key results

- `debited_eq`: what the ledger says of a charge is the sum over the refunds it has a row for
- `refunds_debited`: the bounds, after every run in which each refund was handled
-/

namespace TeamClu.Credits

/-! ## What is debited -/

/-- The refunds of a charge that succeeded. -/
def Charge.succeeded (c : Charge) : List Refund := c.refunds.filter (·.succeeded)

/-- The amount that was refunded. -/
def Charge.refunded (c : Charge) : Nat := (c.succeeded.map (·.amount)).sum

/-- The row is one of a refund of the charge. -/
def Charge.owns (c : Charge) (row : LedgerRow) : Bool :=
  c.refunds.any fun r => row.idempotencyKey == some (refundKey r.id)

/-- The credits that the ledger of the charge's team debits for its refunds. -/
def debited (s : PaymentState) (c : Charge) : Int :=
  (((s.accounts (trimmed c.metadataTeamId)).ledger.filter c.owns).map (-·.amountCredits)).sum

/-- Every refund of the charge that succeeded was on the page of a handler that returned. -/
def Handled (s : PaymentState) (c : Charge) : Prop :=
  ∀ r ∈ c.succeeded, ∃ c', .charge c' ∈ s.returned ∧
    trimmed c'.metadataTeamId = trimmed c.metadataTeamId ∧ r ∈ c'.refunds

/-! ## Ids of refunds -/

/-- No charge has two refunds of one id. -/
def RefundIdsNodup (s : PaymentState) : Prop := ∀ c ∈ s.charges, (c.refunds.map (·.id)).Nodup

/-- Only the steps of Stripe change the charges. -/
private theorem charges_call (s : PaymentState) (handler : Nat) (outcome : CallOutcome) :
    (s.call handler outcome).charges = s.charges := by
  unfold PaymentState.call
  split
  · rfl
  · rfl
  · cases outcome with
    | failed => rfl
    | answerLost => rfl
    | ok =>
      simp only
      split
      · rfl
      · split <;> rfl

private theorem charges_start (s : PaymentState) (source : PaymentSource)
    (calls : Except StripeError (List TopUpCall)) : (s.start source calls).charges = s.charges := by
  unfold PaymentState.start
  split <;> rfl

private theorem charges_startSession (s : PaymentState) (sessionId : Str) (stale : Bool)
    (handler : CheckoutSession → Except StripeError (List TopUpCall)) :
    (s.startSession sessionId stale handler).charges = s.charges := by
  unfold PaymentState.startSession
  split
  · rfl
  · exact charges_start ..

private theorem charges_startCharge (s : PaymentState) (chargeId : Str)
    (handler : Charge → Except StripeError (List TopUpCall)) :
    (s.startCharge chargeId handler).charges = s.charges := by
  unfold PaymentState.startCharge
  split
  · rfl
  · exact charges_start ..

theorem refundIdsNodup_step (s : PaymentState) (step : PaymentStep) (h : RefundIdsNodup s) :
    RefundIdsNodup (paymentMachine.step s step) := by
  have hsame {s' : PaymentState} (hcharges : s'.charges = s.charges) : RefundIdsNodup s' := by
    unfold RefundIdsNodup
    rw [hcharges]
    exact h
  cases step with
  | createSession session => exact hsame (by simp only [paymentMachine]; split <;> rfl)
  | paySession sessionId => exact hsame rfl
  | sessionCompleted sessionId stale => exact hsame (charges_startSession ..)
  | sessionAsyncPaymentSucceeded sessionId stale => exact hsame (charges_startSession ..)
  | chargeRefunded chargeId => exact hsame (charges_startCharge ..)
  | reconcileCheckout sessionId stale => exact hsame (charges_startSession ..)
  | reconcileRefunds chargeId => exact hsame (charges_startCharge ..)
  | call handler outcome => exact hsame (charges_call ..)
  | createCharge charge =>
    simp only [paymentMachine]
    split
    · exact h
    · intro c hc
      rcases List.mem_append.mp hc with hc | hc
      · exact h c hc
      · obtain rfl := List.mem_singleton.mp hc
        exact List.nodup_nil
  | createRefund chargeId refund =>
    simp only [paymentMachine]
    split
    · exact h
    · next hnew =>
      intro c hc
      obtain ⟨c', hc', rfl⟩ := List.mem_map.mp hc
      split
      · rw [List.map_cons, List.nodup_cons]
        refine ⟨fun hmem => hnew ?_, h c' hc'⟩
        obtain ⟨r, hr, heq⟩ := List.mem_map.mp hmem
        exact List.any_eq_true.mpr ⟨c', hc', List.any_eq_true.mpr ⟨r, hr, by simpa using heq⟩⟩
      · exact h c' hc'
  | refundSucceeds refundId =>
    intro c hc
    obtain ⟨c', hc', rfl⟩ := List.mem_map.mp hc
    have hids : (c'.refunds.map fun r => if r.id = refundId then { r with succeeded := true } else r).map
        (·.id) = c'.refunds.map (·.id) := by
      rw [List.map_map]
      refine List.map_congr_left fun r _ => ?_
      simp only [Function.comp]
      split <;> rfl
    exact hids ▸ h c' hc'

/-! ## One refund -/

/-- The share of a refund is rounded up, by less than one credit. -/
theorem refundCredits_bounds (credits : Int) (c : Charge) (r : Refund) :
    credits * r.amount ≤ refundCredits credits c r * c.amount ∧
      refundCredits credits c r * c.amount ≤ credits * r.amount + (c.amount - 1) := by
  have hpos : (0 : Int) < c.amount := Int.natCast_pos.mpr c.amount_pos
  have hdiv := Int.mul_ediv_add_emod (-(credits * r.amount)) c.amount
  have hnonneg := Int.emod_nonneg (-(credits * r.amount)) (Int.ne_of_gt hpos)
  have hlt := Int.emod_lt_of_pos (-(credits * r.amount)) hpos
  have hcomm : refundCredits credits c r * c.amount = -(c.amount * (-(credits * r.amount) / c.amount)) := by
    rw [refundCredits, Int.neg_mul, Int.mul_comm]
  omega

/-- A share that is a whole number of credits is not rounded. -/
theorem refundCredits_of_dvd {credits : Int} {c : Charge} {r : Refund}
    (h : (c.amount : Int) ∣ credits * r.amount) : refundCredits credits c r * c.amount = credits * r.amount := by
  rw [refundCredits, Int.neg_mul, Int.ediv_mul_cancel ((Int.dvd_neg).mpr h), Int.neg_neg]

/-! ## The ledger of a charge -/

/-- The credits that are due for the refund with the key. -/
def dueFor (c : Charge) (key : Option Str) : Int :=
  ((c.succeeded.find? fun r => some (refundKey r.id) == key).map
    (refundCredits (c.metadataCredits.getD 0) c)).getD 0

/-- The credits that are due for all refunds of a charge that succeeded. -/
def due (c : Charge) : Int := (c.succeeded.map (refundCredits (c.metadataCredits.getD 0) c)).sum

variable {s : PaymentState} {c : Charge}

theorem dueFor_refund (hnodup : (c.refunds.map (·.id)).Nodup) {r : Refund} (hr : r ∈ c.succeeded) :
    dueFor c (some (refundKey r.id)) = refundCredits (c.metadataCredits.getD 0) c r := by
  unfold dueFor
  cases hfind : c.succeeded.find? fun r' => some (refundKey r'.id) == some (refundKey r.id) with
  | none =>
    have hnone := List.find?_eq_none.mp hfind r hr
    simp at hnone
  | some r' =>
    have hmem := List.mem_filter.mp (List.mem_of_find?_eq_some hfind)
    have hkey : refundKey r'.id = refundKey r.id := by simpa using List.find?_some hfind
    have heq := List.inj_on_of_nodup_map hnodup hmem.1 (List.mem_filter.mp hr).1
      (PaymentState.refundKey_inj hkey)
    rw [heq]
    rfl

theorem dueFor_nonneg (hcredits : 0 < c.metadataCredits.getD 0) (key : Option Str) : 0 ≤ dueFor c key := by
  unfold dueFor
  cases c.succeeded.find? fun r => some (refundKey r.id) == key with
  | none => exact Int.le_refl 0
  | some r => exact Int.le_of_lt (refundCredits_pos hcredits c r)

/-- A row of the charge debits what is due for its key, which is that of a refund that succeeded. -/
theorem owned_row (hinv : s.Inv) (hnodup : RefundIdsNodup s) (hc : c ∈ s.charges) {row : LedgerRow}
    (hrow : row ∈ (s.accounts (trimmed c.metadataTeamId)).ledger) (howns : c.owns row = true) :
    -row.amountCredits = dueFor c row.idempotencyKey ∧
      ∃ r ∈ c.succeeded, row.idempotencyKey = some (refundKey r.id) := by
  obtain ⟨r₀, hr₀, hkey₀⟩ := List.any_eq_true.mp howns
  rw [beq_iff_eq] at hkey₀
  rcases hinv.rows _ row hrow with ⟨x, -, -, -, hkey, -⟩ | ⟨c', hc', r, hr, hsucceeded, -, hkey, -, hamount⟩
  · rw [hkey] at hkey₀
    exact absurd (Option.some.inj hkey₀) (PaymentState.checkoutKey_ne_refundKey _ _)
  · have hid : r₀.id = r.id := PaymentState.refundKey_inj (Option.some.inj (hkey₀.symm.trans hkey))
    obtain rfl := hinv.refundIds c hc c' hc' r₀ hr₀ r hr hid
    have hmem : r ∈ c.succeeded := List.mem_filter.mpr ⟨hr, hsucceeded⟩
    refine ⟨?_, r, hmem, hkey⟩
    rw [hkey, dueFor_refund (hnodup c hc) hmem, hamount, Int.neg_neg]

/-- The keys of the rows of the charge. -/
def ownedKeys (s : PaymentState) (c : Charge) : List (Option Str) :=
  ((s.accounts (trimmed c.metadataTeamId)).ledger.filter c.owns).map (·.idempotencyKey)

/-- The keys of the refunds that succeeded. -/
def dueKeys (c : Charge) : List (Option Str) := c.succeeded.map fun r => some (refundKey r.id)

theorem debited_eq (hinv : s.Inv) (hnodup : RefundIdsNodup s) (hc : c ∈ s.charges) :
    debited s c = ((ownedKeys s c).map (dueFor c)).sum := by
  unfold debited ownedKeys
  rw [List.map_map]
  refine congrArg List.sum (List.map_congr_left fun row hrow => ?_)
  obtain ⟨hmem, howns⟩ := List.mem_filter.mp hrow
  exact (owned_row hinv hnodup hc hmem howns).1

theorem due_eq (hnodup : (c.refunds.map (·.id)).Nodup) : due c = ((dueKeys c).map (dueFor c)).sum := by
  unfold due dueKeys
  rw [List.map_map]
  exact congrArg List.sum (List.map_congr_left fun r hr => (dueFor_refund hnodup hr).symm)

theorem nodup_ownedKeys (hinv : s.Inv) : (ownedKeys s c).Nodup :=
  (hinv.keys _).sublist (List.filter_sublist.map _)

theorem nodup_dueKeys (hnodup : (c.refunds.map (·.id)).Nodup) : (dueKeys c).Nodup := by
  have hids : (c.succeeded.map (·.id)).Nodup := hnodup.sublist (List.filter_sublist.map _)
  have hmap : dueKeys c = (c.succeeded.map (·.id)).map fun id => some (refundKey id) := by
    rw [List.map_map]
    rfl
  rw [hmap]
  exact hids.map fun a b heq => PaymentState.refundKey_inj (Option.some.inj heq)

theorem ownedKeys_subset (hinv : s.Inv) (hnodup : RefundIdsNodup s) (hc : c ∈ s.charges) :
    ownedKeys s c ⊆ dueKeys c := by
  intro key hkey
  obtain ⟨row, hrow, rfl⟩ := List.mem_map.mp hkey
  obtain ⟨hmem, howns⟩ := List.mem_filter.mp hrow
  obtain ⟨r, hr, heq⟩ := (owned_row hinv hnodup hc hmem howns).2
  exact heq ▸ List.mem_map_of_mem hr

/-- Nothing is debited but what is due. -/
theorem debited_le_due (hinv : s.Inv) (hnodup : RefundIdsNodup s) (hc : c ∈ s.charges)
    (hcredits : 0 < c.metadataCredits.getD 0) : debited s c ≤ due c := by
  obtain ⟨keys, hkeys, hsub⟩ := (nodup_ownedKeys hinv).subperm (ownedKeys_subset hinv hnodup hc)
  obtain ⟨rest, happend⟩ := hsub.exists_perm_append
  have hperm : (dueKeys c).Perm (ownedKeys s c ++ rest) := happend.trans (hkeys.append_right rest)
  have hrest : 0 ≤ (rest.map (dueFor c)).sum :=
    List.sum_nonneg fun credits hmem => by
      obtain ⟨key, -, rfl⟩ := List.mem_map.mp hmem
      exact dueFor_nonneg hcredits key
  rw [debited_eq hinv hnodup hc, due_eq (hnodup c hc), (hperm.map _).sum_eq, List.map_append, List.sum_append]
  omega

/-- Where each refund was handled, all that is due is debited. -/
theorem debited_eq_due (hinv : s.Inv) (hnodup : RefundIdsNodup s) (hc : c ∈ s.charges)
    (hteam : trimmed c.metadataTeamId ≠ []) (hhandled : Handled s c) : debited s c = due c := by
  have hsuper : dueKeys c ⊆ ownedKeys s c := by
    intro key hkey
    obtain ⟨r, hr, rfl⟩ := List.mem_map.mp hkey
    obtain ⟨hrc, hsucceeded⟩ := List.mem_filter.mp hr
    obtain ⟨c', hreturned, hteam', hr'⟩ := hhandled r hr
    have hdue : (trimmed c'.metadataTeamId, refundKey r.id) ∈ (PaymentSource.charge c').due := by
      rw [PaymentSource.due, if_neg (hteam'.symm ▸ hteam)]
      exact List.mem_map.mpr ⟨r, List.mem_filter.mpr ⟨hr', hsucceeded⟩, rfl⟩
    obtain ⟨row, hrow, hkey⟩ :=
      List.mem_map.mp (PaymentState.hasKey_iff.mp (hinv.returned _ hreturned _ hdue))
    rw [hteam'] at hrow
    refine List.mem_map.mpr ⟨row, List.mem_filter.mpr ⟨hrow, ?_⟩, hkey⟩
    exact List.any_eq_true.mpr ⟨r, hrc, by simpa using hkey⟩
  have hperm : (ownedKeys s c).Perm (dueKeys c) :=
    (List.perm_ext_iff_of_nodup (nodup_ownedKeys hinv) (nodup_dueKeys (hnodup c hc))).mpr fun key =>
      ⟨fun h => ownedKeys_subset hinv hnodup hc h, fun h => hsuper h⟩
  rw [debited_eq hinv hnodup hc, due_eq (hnodup c hc), (hperm.map _).sum_eq]

/-- What is due for a charge is its refunded share, rounded up by less than one credit for each refund. -/
theorem due_bounds (c : Charge) :
    c.metadataCredits.getD 0 * c.refunded ≤ due c * c.amount ∧
      due c * c.amount ≤ c.metadataCredits.getD 0 * c.refunded + c.succeeded.length * (c.amount - 1) ∧
      ((∀ r ∈ c.succeeded, (c.amount : Int) ∣ c.metadataCredits.getD 0 * r.amount) →
        due c * c.amount = c.metadataCredits.getD 0 * c.refunded) := by
  unfold due Charge.refunded
  induction c.succeeded with
  | nil => simp
  | cons r rest ih =>
    have hone := refundCredits_bounds (c.metadataCredits.getD 0) c r
    simp only [List.map_cons, List.sum_cons, List.length_cons, Int.add_mul, List.forall_mem_cons]
    simp only [Nat.cast_add, Nat.cast_one]
    rw [Int.mul_add, Int.add_mul, Int.one_mul]
    refine ⟨by omega, by omega, fun h => ?_⟩
    rw [refundCredits_of_dvd h.1]
    have hrest := ih.2.2 h.2
    omega

/-- However a charge is refunded, and however many handlers run and fail: once each refund was on the page of a
    handler that returned, the credits debited are at least the refunded share, and more by less than one credit for
    each refund; shares that are whole are taken exactly.  At no time is more debited than that. -/
theorem refunds_debited (steps : List PaymentStep) (hlisted : paymentMachine.Steps RefundsListed {} steps)
    {c : Charge} (hc : c ∈ (paymentMachine.run steps).charges) (hteam : trimmed c.metadataTeamId ≠ [])
    (hcredits : 0 < c.metadataCredits.getD 0) :
    debited (paymentMachine.run steps) c * c.amount ≤
        c.metadataCredits.getD 0 * c.refunded + c.succeeded.length * (c.amount - 1) ∧
      (Handled (paymentMachine.run steps) c →
        c.metadataCredits.getD 0 * c.refunded ≤ debited (paymentMachine.run steps) c * c.amount ∧
        ((∀ r ∈ c.succeeded, (c.amount : Int) ∣ c.metadataCredits.getD 0 * r.amount) →
          debited (paymentMachine.run steps) c * c.amount = c.metadataCredits.getD 0 * c.refunded)) := by
  have hinv : (paymentMachine.run steps).Inv :=
    Machine.invariant_runFrom PaymentState.inv_step PaymentState.inv_init hlisted
  have hnodup : RefundIdsNodup (paymentMachine.run steps) :=
    Machine.invariant_runFrom (fun s step h _ => refundIdsNodup_step s step h)
      (fun c hc => absurd hc List.not_mem_nil) (Machine.steps_true _ _ steps)
  obtain ⟨hlow, hhigh, hexact⟩ := due_bounds c
  constructor
  · have hle := debited_le_due hinv hnodup hc hcredits
    have hmul := Int.mul_le_mul_of_nonneg_right hle (Int.natCast_nonneg c.amount)
    exact Int.le_trans hmul hhigh
  · intro hhandled
    rw [debited_eq_due hinv hnodup hc hteam hhandled]
    exact ⟨hlow, hexact⟩

/-- A charge of 100 credits for an amount of 3. -/
def thirdsCharge : Charge :=
  { id := "ch".toList, metadataTeamId := some "t".toList, metadataCredits := some 100, amount := 3
    amount_pos := by decide }

/-- The charge is refunded in parts of one unit, and the webhook gets an event and makes its calls. -/
def refundThirds (n : Nat) : List PaymentStep :=
  [.createCharge thirdsCharge] ++
    (List.range n).flatMap (fun k =>
      [.createRefund "ch".toList (sampleRefund k), .refundSucceeds (sampleRefund k).id]) ++
    [.chargeRefunded "ch".toList] ++ List.replicate n (.call 0 .ok)

/-- The charge after that. -/
def refundedThirds (n : Nat) : Charge :=
  { thirdsCharge with
    refunds := ((List.range n).map fun k => { sampleRefund k with succeeded := true }).reverse }

/-- Three refunds of a third of 100 credits each take 34, so 102 credits are debited for the 100 that were bought. -/
theorem refunded_in_thirds :
    (paymentMachine.run (refundThirds 3)).charges = [refundedThirds 3] ∧
      (refundedThirds 3).metadataCredits = some 100 ∧ (refundedThirds 3).refunded = (refundedThirds 3).amount ∧
      debited (paymentMachine.run (refundThirds 3)) (refundedThirds 3) = 102 := by
  decide +kernel

/-- The three refunds of a third that the webhook handled. -/
theorem refunds_debited_thirds :
    let s := paymentMachine.run (refundThirds 3)
    100 * (refundedThirds 3).refunded ≤ debited s (refundedThirds 3) * (refundedThirds 3).amount :=
  ((refunds_debited (refundThirds 3) (by decide +kernel) (c := refundedThirds 3) (by decide +kernel)
    (by decide +kernel) (by decide +kernel)).2 fun r hr =>
      ⟨refundedThirds 3, by decide +kernel, rfl, (List.mem_filter.mp hr).1⟩).1

end TeamClu.Credits
