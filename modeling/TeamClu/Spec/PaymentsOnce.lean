import Mathlib.Data.List.Nodup
import TeamClu.Native.StripeCredits

/-!
# Every payment is credited once

Stripe's sessions become paid and its refunds succeed while handlers of the webhook and of the
reconciliation run, each one call of `topUp` after the other, and may fail at any of them.  The
idempotency keys make the ledger hold at most one row for a session and for a refund.

A handler of a charge lists its refunds once and without turning pages, so a refund beyond the first
page gets no row; while no charge has more refunds than fit on a page, a handler that returns without
an error leaves nothing out (`payments_recorded_once`).
-/

namespace TeamClu.Credits

/-! ## The machine -/

/-- What a handler is about: a session or a charge as it was read. -/
inductive PaymentSource where
  | session (session : CheckoutSession)
  | charge (charge : Charge)
  deriving DecidableEq

/-- Stripe, the ledger of each team and the handlers. -/
structure PaymentState where
  sessions : List CheckoutSession := []
  charges : List Charge := []
  accounts : Str → Account := fun teamId => { teamId }
  /-- Handlers under way, with the calls that they have still to make. -/
  running : List (PaymentSource × List TopUpCall) := []
  /-- Handlers that returned without an error. -/
  returned : List PaymentSource := []

/-- How a call of `topUp` ends. -/
inductive CallOutcome where
  | ok
  /-- It fails before anything is written. -/
  | failed
  /-- It is written, and its answer is lost. -/
  | answerLost
  deriving DecidableEq

/-- What can happen next.  A session event may carry the session as it was before it was paid
    (`stale`). -/
inductive PaymentStep where
  | createSession (session : CheckoutSession)
  | paySession (sessionId : Str)
  | createCharge (charge : Charge)
  | createRefund (chargeId : Str) (refund : Refund)
  | refundSucceeds (refundId : Str)
  | sessionCompleted (sessionId : Str) (stale : Bool)
  | sessionAsyncPaymentSucceeded (sessionId : Str) (stale : Bool)
  | chargeRefunded (chargeId : Str)
  | reconcileCheckout (sessionId : Str) (stale : Bool)
  | reconcileRefunds (chargeId : Str)
  /-- A handler makes its next call. -/
  | call (handler : Nat) (outcome : CallOutcome)

/-- A session as a handler reads it. -/
def CheckoutSession.read (session : CheckoutSession) (stale : Bool) : CheckoutSession :=
  if stale then { session with paid := false } else session

namespace PaymentState

/-- A handler is called: it throws, returns or goes on to its calls. -/
def start (s : PaymentState) (source : PaymentSource) (calls : Except StripeError (List TopUpCall)) :
    PaymentState :=
  match calls with
  | .error _ => s
  | .ok [] => { s with returned := s.returned ++ [source] }
  | .ok calls => { s with running := s.running ++ [(source, calls)] }

/-- A handler of a session that is there. -/
def startSession (s : PaymentState) (sessionId : Str) (stale : Bool)
    (handler : CheckoutSession → Except StripeError (List TopUpCall)) : PaymentState :=
  match s.sessions.find? (·.id == sessionId) with
  | none => s
  | some session => s.start (.session (session.read stale)) (handler (session.read stale))

/-- A handler of a charge that is there. -/
def startCharge (s : PaymentState) (chargeId : Str)
    (handler : Charge → Except StripeError (List TopUpCall)) : PaymentState :=
  match s.charges.find? (·.id == chargeId) with
  | none => s
  | some charge => s.start (.charge charge) (handler charge)

/-- The ledgers after a call. -/
def apply (s : PaymentState) (call : TopUpCall) : Str → Account :=
  Function.update s.accounts call.teamId (applyTopUp (s.accounts call.teamId) call.input)

/-- The next call of a handler; the handler throws when the call fails or is refused. -/
def call (s : PaymentState) (handler : Nat) (outcome : CallOutcome) : PaymentState :=
  match s.running[handler]? with
  | none | some (_, []) => s
  | some (source, call :: rest) =>
    let running := s.running.eraseIdx handler
    match outcome with
    | .failed => { s with running }
    | .answerLost => { s with running, accounts := s.apply call }
    | .ok =>
      if !acceptsTopUp call.input then { s with running }
      else
        match rest with
        | [] => { s with running, accounts := s.apply call, returned := s.returned ++ [source] }
        | rest => { s with running := s.running.set handler (source, rest), accounts := s.apply call }

end PaymentState

/-- The runs of Stripe, the webhook and the reconciliation. -/
def paymentMachine : Machine PaymentState PaymentStep where
  init := {}
  step s step :=
    match step with
    | .createSession session =>
      if s.sessions.any (·.id == session.id) then s
      else { s with sessions := s.sessions ++ [{ session with paid := false }] }
    | .paySession sessionId =>
      { s with sessions := s.sessions.map fun x => if x.id = sessionId then { x with paid := true } else x }
    | .createCharge charge =>
      if s.charges.any (·.id == charge.id) then s
      else { s with charges := s.charges ++ [{ charge with refunds := [] }] }
    | .createRefund chargeId refund =>
      if s.charges.any fun c => c.refunds.any (·.id == refund.id) then s
      else
        { s with charges := s.charges.map fun c =>
            if c.id = chargeId then { c with refunds := { refund with succeeded := false } :: c.refunds }
            else c }
    | .refundSucceeds refundId =>
      { s with charges := s.charges.map fun c =>
          { c with refunds := c.refunds.map fun r =>
              if r.id = refundId then { r with succeeded := true } else r } }
    | .sessionCompleted sessionId stale =>
      s.startSession sessionId stale fun x => handleStripeEvent (.checkoutSessionCompleted x)
    | .sessionAsyncPaymentSucceeded sessionId stale =>
      s.startSession sessionId stale fun x => handleStripeEvent (.checkoutSessionAsyncPaymentSucceeded x)
    | .chargeRefunded chargeId => s.startCharge chargeId fun c => handleStripeEvent (.chargeRefunded c)
    | .reconcileCheckout sessionId stale => s.startSession sessionId stale reconcileCheckout
    | .reconcileRefunds chargeId => s.startCharge chargeId reconcileRefunds
    | .call handler outcome => s.call handler outcome

/-- The refunds of a charge that is handled fit on the page that is listed. -/
def RefundsListed (s : PaymentState) : PaymentStep → Prop
  | .chargeRefunded chargeId | .reconcileRefunds chargeId =>
    ∀ c ∈ s.charges, c.id = chargeId → c.refunds.length ≤ REFUNDS_LIMIT
  | _ => True

instance (s : PaymentState) (step : PaymentStep) : Decidable (RefundsListed s step) :=
  match step with
  | .chargeRefunded chargeId | .reconcileRefunds chargeId =>
    inferInstanceAs (Decidable (∀ c ∈ s.charges, c.id = chargeId → c.refunds.length ≤ REFUNDS_LIMIT))
  | .createSession _ | .paySession _ | .createCharge _ | .createRefund .. | .refundSucceeds _
  | .sessionCompleted .. | .sessionAsyncPaymentSucceeded .. | .reconcileCheckout .. | .call .. =>
    isTrue trivial

/-- The teams and keys of the rows that are due for a source. -/
def PaymentSource.due : PaymentSource → List (Str × Str)
  | .session x =>
    if x.paid then (teamIdFromSession x).toList.map fun team => (team, checkoutKey x.id) else []
  | .charge c =>
    if trimmed c.metadataTeamId = [] then []
    else (c.refunds.filter (·.succeeded)).map fun r => (trimmed c.metadataTeamId, refundKey r.id)

/-- The row credits a session that is paid, with its credits and in its team's ledger. -/
def CreditsSession (s : PaymentState) (teamId : Str) (row : LedgerRow) : Prop :=
  ∃ session ∈ s.sessions, session.paid = true ∧ teamIdFromSession session = some teamId ∧
    row.idempotencyKey = some (checkoutKey session.id) ∧ row.kind = .topUp ∧
    creditsForSession session = .ok row.amountCredits

/-- The row debits a refund that has succeeded, with its share of the charge. -/
def DebitsRefund (s : PaymentState) (teamId : Str) (row : LedgerRow) : Prop :=
  ∃ charge ∈ s.charges, ∃ refund ∈ charge.refunds, refund.succeeded = true ∧
    trimmed charge.metadataTeamId = teamId ∧
    row.idempotencyKey = some (refundKey refund.id) ∧ row.kind = .refund ∧
    row.amountCredits = -refundCredits (charge.metadataCredits.getD 0) charge refund

/-- What the payments promise. -/
structure PaymentState.Safe (s : PaymentState) : Prop where
  /-- Each row is the one of a paid session or of a refund that succeeded. -/
  rows : ∀ teamId, ∀ row ∈ (s.accounts teamId).ledger,
    CreditsSession s teamId row ∨ DebitsRefund s teamId row
  /-- A session and a refund have at most one row, in all ledgers together. -/
  once : (∀ teamId, ((s.accounts teamId).ledger.map (·.idempotencyKey)).Nodup) ∧
    ∀ teamId teamId', ∀ row ∈ (s.accounts teamId).ledger, ∀ row' ∈ (s.accounts teamId').ledger,
      row.idempotencyKey = row'.idempotencyKey → teamId = teamId' ∧ row = row'
  /-- A handler that returned without an error has left no row out. -/
  recorded : ∀ source ∈ s.returned, ∀ p ∈ source.due, (s.accounts p.1).hasKey p.2 = true

/-! ## Calls and their rows -/

/-- The row that a call writes. -/
def TopUpCall.row (call : TopUpCall) : LedgerRow :=
  { kind := call.input.kind, amountCredits := call.input.amountCredits
    idempotencyKey := some call.input.idempotencyKey, note := call.input.note }

/-- A call that writes the row of a session or of a refund. -/
def Due (s : PaymentState) (call : TopUpCall) : Prop :=
  acceptsTopUp call.input = true ∧
    (CreditsSession s call.teamId call.row ∨ DebitsRefund s call.teamId call.row)

/-- A handler is about something that Stripe has. -/
def PaymentSource.Real (s : PaymentState) : PaymentSource → Prop
  | .session x => x.paid = true → x ∈ s.sessions
  | .charge c => ∃ c' ∈ s.charges, c'.metadataTeamId = c.metadataTeamId ∧
      c'.metadataCredits = c.metadataCredits ∧ c'.amount = c.amount ∧
      ∀ r ∈ c.refunds, r.succeeded = true → r ∈ c'.refunds

private theorem checkoutKey_ne_nil (id : Str) : checkoutKey id ≠ [] :=
  List.append_ne_nil_of_left_ne_nil (by decide) id

private theorem refundKey_ne_nil (id : Str) : refundKey id ≠ [] :=
  List.append_ne_nil_of_left_ne_nil (by decide) id

/-- A credited session's calls. -/
private theorem creditCheckoutSession_ok {x : CheckoutSession} {calls : List TopUpCall}
    (h : creditCheckoutSession x = .ok calls) :
    ∃ team credits, teamIdFromSession x = some team ∧ creditsForSession x = .ok credits ∧
      0 < credits ∧
      calls = [{ teamId := team
                 input := { amountCredits := credits, kind := .topUp
                            idempotencyKey := checkoutKey x.id
                            note := some ("stripe ".toList ++ x.id) } }] := by
  unfold creditCheckoutSession at h
  -- neither a session without a team nor one without a price is credited
  cases hteam : teamIdFromSession x with
  | none => rw [hteam] at h; cases h
  | some team =>
    rw [hteam] at h
    cases hcredits : creditsForSession x with
    | error e => rw [hcredits] at h; cases h
    | ok credits =>
      rw [hcredits] at h
      refine ⟨team, credits, rfl, rfl, ?_, (Except.ok.inj h).symm⟩
      -- a session is worth credits in its metadata or its amount, and either is positive
      unfold creditsForSession at hcredits
      split at hcredits
      · split at hcredits
        · next hpos =>
          cases hcredits
          exact hpos
        · split at hcredits
          · cases hcredits
          · cases hcredits
            omega
      · split at hcredits
        · cases hcredits
        · cases hcredits
          omega

/-- What the handlers of a session return: nothing for one that is not paid, else its one call. -/
theorem sessionHandler_due {s : PaymentState} {x : CheckoutSession} {calls : List TopUpCall}
    (hreal : PaymentSource.Real s (.session x))
    (h : (if !x.paid then .ok [] else creditCheckoutSession x) = Except.ok (ε := StripeError) calls) :
    (∀ call ∈ calls, Due s call) ∧
      ∀ p ∈ (PaymentSource.session x).due, ∃ call ∈ calls,
        call.teamId = p.1 ∧ call.input.idempotencyKey = p.2 := by
  cases hpaid : x.paid with
  | false =>
    -- a session that is not paid is due nothing
    have hdue : (PaymentSource.session x).due = [] := by
      simp only [PaymentSource.due, hpaid, Bool.false_eq_true, if_false]
    rw [hpaid] at h
    cases h
    rw [hdue]
    exact ⟨nofun, nofun⟩
  | true =>
    rw [hpaid] at h
    -- a paid one is due one row, under the key of the session
    obtain ⟨team, credits, hteam, hcredits, hpos, rfl⟩ := creditCheckoutSession_ok h
    have hdue : (PaymentSource.session x).due = [(team, checkoutKey x.id)] := by
      simp only [PaymentSource.due, hpaid, if_true, hteam, Option.toList_some, List.map_singleton]
    rw [hdue]
    refine ⟨fun call hcall => ?_, fun p hp => ?_⟩
    · obtain rfl := List.mem_singleton.mp hcall
      refine ⟨?_, Or.inl ⟨x, hreal hpaid, hpaid, hteam, rfl, rfl, hcredits⟩⟩
      have hkey := checkoutKey_ne_nil x.id
      have hne : credits ≠ 0 := by omega
      simp [acceptsTopUp, hkey, hne, Int.le_of_lt hpos]
    · obtain rfl := List.mem_singleton.mp hp
      exact ⟨_, List.mem_cons_self, rfl, rfl⟩

/-- A refund of a positive share is a positive number of credits. -/
theorem refundCredits_pos {credits : Int} (hpos : 0 < credits) (charge : Charge)
    (refund : Refund) : 0 < refundCredits credits charge refund := by
  unfold refundCredits
  have hcharge : (0 : Int) < charge.amount := Int.natCast_pos.mpr charge.amount_pos
  have hprod : 0 < credits * (refund.amount : Int) :=
    Int.mul_pos hpos (Int.natCast_pos.mpr refund.amount_pos)
  have hneg : -(credits * (refund.amount : Int)) / (charge.amount : Int) < 0 :=
    Int.ediv_neg_of_neg_of_pos (by omega) hcharge
  omega

/-- What the handlers of a charge return: a call for each refund on the page that has succeeded. -/
theorem refundCharge_due {s : PaymentState} {c : Charge} {calls : List TopUpCall}
    (hreal : PaymentSource.Real s (.charge c)) (hlisted : c.refunds.length ≤ REFUNDS_LIMIT)
    (h : refundCharge c = .ok calls) :
    (∀ call ∈ calls, Due s call) ∧
      ∀ p ∈ (PaymentSource.charge c).due, ∃ call ∈ calls,
        call.teamId = p.1 ∧ call.input.idempotencyKey = p.2 := by
  -- a charge without a team or without credits refunds nothing
  unfold refundCharge at h
  dsimp only at h
  split at h
  · cases h
  next hteam =>
  split at h
  · cases h
  next hcredits =>
  cases h
  rw [List.take_of_length_le hlisted]
  have hpos : 0 < c.metadataCredits.getD 0 := Int.not_le.mp hcredits
  obtain ⟨c', hc', hteam', hcredits', hamount', hrefunds⟩ := hreal
  refine ⟨fun call hcall => ?_, fun p hp => ?_⟩
  · -- each refund that succeeded makes one call
    obtain ⟨r, hr, hsome⟩ := List.mem_filterMap.mp hcall
    split at hsome
    · next hcond =>
      obtain ⟨hsucceeded, hpositive⟩ := Bool.and_eq_true_iff.mp hcond
      have hpositive := of_decide_eq_true hpositive
      cases hsome
      refine ⟨?_, Or.inr ⟨c', hc', r, hrefunds r hr hsucceeded, hsucceeded, by rw [hteam'], rfl, rfl, ?_⟩⟩
      · have hkey := refundKey_ne_nil r.id
        have hne : refundCredits (c.metadataCredits.getD 0) c r ≠ 0 := by omega
        simp [acceptsTopUp, hkey, hne, Int.le_of_lt hpositive]
      · simp only [TopUpCall.row, refundCredits, hcredits', hamount']
    · cases hsome
  · -- and each one that is due is among the listed ones
    simp only [PaymentSource.due, if_neg hteam] at hp
    obtain ⟨r, hr, rfl⟩ := List.mem_map.mp hp
    obtain ⟨hr, hsucceeded⟩ := List.mem_filter.mp hr
    refine ⟨_, List.mem_filterMap.mpr ⟨r, hr, if_pos ?_⟩, rfl, rfl⟩
    rw [hsucceeded, Bool.true_and]
    exact decide_eq_true (refundCredits_pos hpos c r)

/-- What the reconciliation makes of a charge; one without a team has nothing due. -/
theorem reconcileRefunds_due {s : PaymentState} {c : Charge} {calls : List TopUpCall}
    (hreal : PaymentSource.Real s (.charge c)) (hlisted : c.refunds.length ≤ REFUNDS_LIMIT)
    (h : reconcileRefunds c = .ok calls) :
    (∀ call ∈ calls, Due s call) ∧
      ∀ p ∈ (PaymentSource.charge c).due, ∃ call ∈ calls,
        call.teamId = p.1 ∧ call.input.idempotencyKey = p.2 := by
  unfold reconcileRefunds at h
  split at h
  · next hteam =>
    cases h
    refine ⟨nofun, ?_⟩
    simp only [PaymentSource.due, if_pos hteam]
    nofun
  · exact refundCharge_due hreal hlisted h

/-! ## What Stripe keeps -/

/-- Sessions that are paid and refunds that have succeeded stay as they are. -/
structure StripeKeeps (s s' : PaymentState) : Prop where
  sessions : ∀ x ∈ s.sessions, x.paid = true → x ∈ s'.sessions
  charges : ∀ c ∈ s.charges, ∃ c' ∈ s'.charges, c'.metadataTeamId = c.metadataTeamId ∧
    c'.metadataCredits = c.metadataCredits ∧ c'.amount = c.amount ∧
      ∀ r ∈ c.refunds, r.succeeded = true → r ∈ c'.refunds

section

variable {s s' : PaymentState} {teamId : Str} {row : LedgerRow}

private theorem CreditsSession.mono (h : CreditsSession s teamId row) (hkeeps : StripeKeeps s s') :
    CreditsSession s' teamId row := by
  obtain ⟨x, hx, hpaid, hrest⟩ := h
  exact ⟨x, hkeeps.sessions x hx hpaid, hpaid, hrest⟩

private theorem DebitsRefund.mono (h : DebitsRefund s teamId row) (hkeeps : StripeKeeps s s') :
    DebitsRefund s' teamId row := by
  obtain ⟨c, hc, r, hr, hsucceeded, hteam, hkey, hkind, hamount⟩ := h
  obtain ⟨c', hc', hteam', hcredits', hamount', hrefunds⟩ := hkeeps.charges c hc
  refine ⟨c', hc', r, hrefunds r hr hsucceeded, hsucceeded, by rw [hteam', hteam], hkey, hkind, ?_⟩
  rw [hamount]
  simp only [refundCredits, hcredits', hamount']

private theorem Due.mono {call : TopUpCall} (h : Due s call) (hkeeps : StripeKeeps s s') : Due s' call :=
  ⟨h.1, h.2.imp (·.mono hkeeps) (·.mono hkeeps)⟩

end

/-! ## The invariant -/

/-- What holds between two steps. -/
structure PaymentState.Inv (s : PaymentState) : Prop where
  sessionIds : (s.sessions.map (·.id)).Nodup
  chargeIds : (s.charges.map (·.id)).Nodup
  refundIds : ∀ c ∈ s.charges, ∀ c' ∈ s.charges, ∀ r ∈ c.refunds, ∀ r' ∈ c'.refunds,
    r.id = r'.id → c = c'
  keys : ∀ teamId, ((s.accounts teamId).ledger.map (·.idempotencyKey)).Nodup
  rows : ∀ teamId, ∀ row ∈ (s.accounts teamId).ledger,
    CreditsSession s teamId row ∨ DebitsRefund s teamId row
  /-- A handler under way has still to make the calls for what is missing. -/
  running : ∀ handler ∈ s.running, (∀ call ∈ handler.2, Due s call) ∧
    ∀ p ∈ handler.1.due, (s.accounts p.1).hasKey p.2 = true ∨
      ∃ call ∈ handler.2, call.teamId = p.1 ∧ call.input.idempotencyKey = p.2
  returned : ∀ source ∈ s.returned, ∀ p ∈ source.due, (s.accounts p.1).hasKey p.2 = true

namespace PaymentState

variable {s : PaymentState}

theorem inv_init : Inv {} where
  sessionIds := List.nodup_nil
  chargeIds := List.nodup_nil
  refundIds := nofun
  keys _ := List.nodup_nil
  rows _ := nofun
  running := nofun
  returned := nofun

/-- A step of Stripe. -/
private theorem Inv.stripe (h : s.Inv) (sessions : List CheckoutSession) (charges : List Charge)
    (hkeeps : StripeKeeps s { s with sessions, charges })
    (hsessionIds : (sessions.map (·.id)).Nodup) (hchargeIds : (charges.map (·.id)).Nodup)
    (hrefundIds : ∀ c ∈ charges, ∀ c' ∈ charges, ∀ r ∈ c.refunds, ∀ r' ∈ c'.refunds,
      r.id = r'.id → c = c') : Inv { s with sessions, charges } where
  sessionIds := hsessionIds
  chargeIds := hchargeIds
  refundIds := hrefundIds
  keys := h.keys
  rows teamId row hrow := (h.rows teamId row hrow).imp (·.mono hkeeps) (·.mono hkeeps)
  running p hp := ⟨fun call hcall => ((h.running p hp).1 call hcall).mono hkeeps, (h.running p hp).2⟩
  returned := h.returned

/-- A handler that starts with calls for all that is due. -/
private theorem Inv.start (h : s.Inv) {source : PaymentSource}
    {result : Except StripeError (List TopUpCall)}
    (hdue : ∀ calls, result = .ok calls → (∀ call ∈ calls, Due s call) ∧
      ∀ p ∈ source.due, ∃ call ∈ calls, call.teamId = p.1 ∧ call.input.idempotencyKey = p.2) :
    (s.start source result).Inv := by
  unfold PaymentState.start
  split
  · -- an error starts nothing
    exact h
  · -- without calls the source is done at once, and nothing was due
    obtain ⟨-, hall⟩ := hdue [] rfl
    refine { h with returned := fun x hx p hp => ?_ }
    rcases List.mem_append.mp hx with hx | hx
    · exact h.returned x hx p hp
    · rw [List.mem_singleton.mp hx] at hp
      obtain ⟨call, hcall, -⟩ := hall p hp
      exact absurd hcall List.not_mem_nil
  · next calls _ =>
    -- the handler runs with its calls before it
    obtain ⟨hcalls, hall⟩ := hdue calls rfl
    refine { h with running := fun handler hhandler => ?_ }
    rcases List.mem_append.mp hhandler with hhandler | hhandler
    · exact h.running handler hhandler
    · rw [List.mem_singleton.mp hhandler]
      exact ⟨hcalls, fun p hp => Or.inr (hall p hp)⟩

/-- The rows and keys after a call. -/
private theorem apply_spec (s : PaymentState) {call : TopUpCall}
    (haccepts : acceptsTopUp call.input = true) (teamId : Str) :
    (∀ key, (s.apply call teamId).hasKey key = true ↔ (s.accounts teamId).hasKey key = true ∨
      (call.teamId = teamId ∧ call.input.idempotencyKey = key)) ∧
    ((s.apply call teamId).ledger = (s.accounts teamId).ledger ∨
      (call.teamId = teamId ∧ (s.accounts teamId).hasKey call.input.idempotencyKey = false ∧
        (s.apply call teamId).ledger = (s.accounts teamId).ledger ++ [call.row])) := by
  unfold PaymentState.apply
  by_cases hteam : teamId = call.teamId
  · -- the call is for this team
    subst hteam
    rw [Function.update_self]
    unfold applyTopUp topUp Account.postOnce
    rw [if_pos haccepts]
    split
    · next hkey =>
      -- the key is there already: nothing is posted
      refine ⟨fun key => ⟨Or.inl, ?_⟩, Or.inl rfl⟩
      rintro (hold | ⟨-, rfl⟩)
      · exact hold
      · exact hkey
    · next hkey =>
      -- the key is new, and its row is posted
      refine ⟨fun key => ?_, Or.inr ⟨rfl, Bool.eq_false_iff.mpr hkey, rfl⟩⟩
      simp [Account.hasKey, Account.post]
  · -- the call is for another team
    rw [Function.update_of_ne hteam]
    exact ⟨fun key => ⟨Or.inl, fun hor => hor.resolve_right fun hand => hteam hand.1.symm⟩, Or.inl rfl⟩

theorem hasKey_iff {a : Account} {key : Str} :
    a.hasKey key = true ↔ some key ∈ a.ledger.map (·.idempotencyKey) := by
  simp only [Account.hasKey, List.any_eq_true, beq_iff_eq, List.mem_map]

/-- A call that is due keeps the ledgers as they should be. -/
private theorem Inv.apply (h : s.Inv) {call : TopUpCall} (hdue : Due s call) :
    (∀ teamId, ((s.apply call teamId).ledger.map (·.idempotencyKey)).Nodup) ∧
      ∀ teamId, ∀ row ∈ (s.apply call teamId).ledger,
        CreditsSession s teamId row ∨ DebitsRefund s teamId row := by
  refine ⟨fun teamId => ?_, fun teamId row hrow => ?_⟩
  · rcases (s.apply_spec hdue.1 teamId).2 with heq | ⟨rfl, hnew, heq⟩ <;> rw [heq]
    · exact h.keys teamId
    · rw [List.map_append, List.map_singleton, List.nodup_append_comm]
      refine List.nodup_cons.mpr ⟨fun hmem => ?_, h.keys _⟩
      exact Bool.false_ne_true (hnew.symm.trans (hasKey_iff.mpr hmem))
  · rcases (s.apply_spec hdue.1 teamId).2 with heq | ⟨rfl, -, heq⟩ <;> rw [heq] at hrow
    · exact h.rows teamId row hrow
    · rcases List.mem_append.mp hrow with hrow | hrow
      · exact h.rows _ row hrow
      · rw [List.mem_singleton.mp hrow]
        exact hdue.2

/-- A call of a handler keeps the invariant. -/
private theorem Inv.call (h : s.Inv) (handler : Nat) (outcome : CallOutcome) :
    (s.call handler outcome).Inv := by
  unfold PaymentState.call
  split
  · exact h
  · exact h
  next source call rest hget =>
  have hmem : (source, call :: rest) ∈ s.running := List.mem_of_getElem? hget
  obtain ⟨hcalls, hcover⟩ := h.running _ hmem
  have hdue := hcalls call List.mem_cons_self
  obtain ⟨hkeys, hrows⟩ := h.apply hdue
  -- no key is ever lost
  have hmore : ∀ p : Str × Str, (s.accounts p.1).hasKey p.2 = true →
      (s.apply call p.1).hasKey p.2 = true := fun p hp =>
    ((s.apply_spec hdue.1 p.1).1 p.2).mpr (Or.inl hp)
  have hothers : ∀ x ∈ s.running, (∀ c ∈ x.2, Due s c) ∧
      ∀ p ∈ x.1.due, (s.apply call p.1).hasKey p.2 = true ∨
        ∃ c ∈ x.2, c.teamId = p.1 ∧ c.input.idempotencyKey = p.2 := fun x hx =>
    ⟨(h.running x hx).1, fun p hp => ((h.running x hx).2 p hp).imp_left (hmore p)⟩
  -- the source has its key in the ledger now, or a call for it to come
  have hafter : ∀ p ∈ source.due, (s.apply call p.1).hasKey p.2 = true ∨
      ∃ c ∈ rest, c.teamId = p.1 ∧ c.input.idempotencyKey = p.2 := by
    intro p hp
    rcases hcover p hp with hold | ⟨c, hc, hteam, hkey⟩
    · exact Or.inl (hmore p hold)
    · rcases List.mem_cons.mp hc with rfl | hc
      · exact Or.inl (((s.apply_spec hdue.1 p.1).1 p.2).mpr (Or.inr ⟨hteam, hkey⟩))
      · exact Or.inr ⟨c, hc, hteam, hkey⟩
  have hreturned : ∀ x ∈ s.returned, ∀ p ∈ x.due, (s.apply call p.1).hasKey p.2 = true :=
    fun x hx p hp => hmore p (h.returned x hx p hp)
  dsimp only
  split
  · -- the call failed: the handler is given up, and nothing was posted
    exact { h with running := fun x hx => h.running x (List.mem_of_mem_eraseIdx hx) }
  · -- it was posted, and its answer was lost
    exact ⟨h.sessionIds, h.chargeIds, h.refundIds, hkeys, hrows,
      fun x hx => hothers x (List.mem_of_mem_eraseIdx hx), hreturned⟩
  · rw [hdue.1, Bool.not_true, if_neg Bool.false_ne_true]
    split
    · -- that was the last call: the source is returned
      refine ⟨h.sessionIds, h.chargeIds, h.refundIds, hkeys, hrows,
        fun x hx => hothers x (List.mem_of_mem_eraseIdx hx), fun x hx p hp => ?_⟩
      rcases List.mem_append.mp hx with hx | hx
      · exact hreturned x hx p hp
      · rw [List.mem_singleton.mp hx] at hp
        exact (hafter p hp).resolve_right nofun
    · -- the handler goes on with the other calls
      refine ⟨h.sessionIds, h.chargeIds, h.refundIds, hkeys, hrows, fun x hx => ?_, hreturned⟩
      rcases List.mem_or_eq_of_mem_set hx with hx | rfl
      · exact hothers x hx
      · exact ⟨fun c hc => hcalls c (List.mem_cons_of_mem _ hc), hafter⟩

/-- A handler of a session keeps the invariant. -/
private theorem Inv.startSession (h : s.Inv) (sessionId : Str) (stale : Bool)
    {handler : CheckoutSession → Except StripeError (List TopUpCall)}
    (hhandler : ∀ x, handler x = if !x.paid then .ok [] else creditCheckoutSession x) :
    (s.startSession sessionId stale handler).Inv := by
  unfold PaymentState.startSession
  split
  · exact h
  · next x hfind =>
    refine h.start fun calls hcalls => sessionHandler_due (fun hpaid => ?_) (hhandler _ ▸ hcalls)
    have hmem := List.mem_of_find?_eq_some hfind
    cases stale with
    | true => exact absurd hpaid Bool.false_ne_true
    | false => exact hmem

/-- A handler of a charge whose refunds fit on a page keeps the invariant. -/
private theorem Inv.startCharge (h : s.Inv) {chargeId : Str}
    {handler : Charge → Except StripeError (List TopUpCall)}
    (hhandler : ∀ c, handler c = refundCharge c ∨ handler c = reconcileRefunds c)
    (hlisted : ∀ c ∈ s.charges, c.id = chargeId → c.refunds.length ≤ REFUNDS_LIMIT) :
    (s.startCharge chargeId handler).Inv := by
  unfold PaymentState.startCharge
  split
  · exact h
  · next c hfind =>
    have hmem := List.mem_of_find?_eq_some hfind
    have hid : c.id = chargeId := by simpa using List.find?_some hfind
    have hreal : PaymentSource.Real s (.charge c) := ⟨c, hmem, rfl, rfl, rfl, fun _ hr _ => hr⟩
    refine h.start fun calls hcalls => ?_
    rcases hhandler c with heq | heq <;> rw [heq] at hcalls
    · exact refundCharge_due hreal (hlisted c hmem hid) hcalls
    · exact reconcileRefunds_due hreal (hlisted c hmem hid) hcalls

/-- Changing the charges one by one, where what has succeeded stays. -/
private theorem Inv.mapCharges (h : s.Inv) {f : Charge → Charge}
    (hsame : ∀ c, (f c).id = c.id ∧ (f c).metadataTeamId = c.metadataTeamId ∧
      (f c).metadataCredits = c.metadataCredits ∧ (f c).amount = c.amount)
    (hrefunds : ∀ c ∈ s.charges, ∀ r ∈ c.refunds, r.succeeded = true → r ∈ (f c).refunds)
    (hids : ∀ c ∈ s.charges, ∀ c' ∈ s.charges, ∀ r ∈ (f c).refunds, ∀ r' ∈ (f c').refunds,
      r.id = r'.id → c = c') : Inv { s with charges := s.charges.map f } := by
  refine h.stripe s.sessions _ ⟨fun x hx _ => hx, fun c hc => ?_⟩ h.sessionIds ?_ ?_
  · exact ⟨f c, List.mem_map_of_mem hc, (hsame c).2.1, (hsame c).2.2.1, (hsame c).2.2.2, hrefunds c hc⟩
  · have hmap : (s.charges.map f).map (·.id) = s.charges.map (·.id) := by
      rw [List.map_map]
      exact List.map_congr_left fun c _ => (hsame c).1
    exact hmap.symm ▸ h.chargeIds
  · intro d hd d' hd' r hr r' hr' hid
    obtain ⟨c, hc, rfl⟩ := List.mem_map.mp hd
    obtain ⟨c', hc', rfl⟩ := List.mem_map.mp hd'
    rw [hids c hc c' hc' r hr r' hr' hid]

/-- Every step whose refunds are listed in full keeps the invariant. -/
theorem inv_step (s : PaymentState) (step : PaymentStep) (h : s.Inv) (hlisted : RefundsListed s step) :
    (paymentMachine.step s step).Inv := by
  cases step with
  | createSession session =>
    simp only [paymentMachine]
    split
    · exact h
    · next hnew =>
      -- a session with a new id
      refine h.stripe _ s.charges ⟨fun x hx _ => List.mem_append_left _ hx, fun c hc =>
        ⟨c, hc, rfl, rfl, rfl, fun _ hr _ => hr⟩⟩ ?_ h.chargeIds h.refundIds
      rw [List.map_append, List.map_singleton, List.nodup_append_comm]
      refine List.nodup_cons.mpr ⟨fun hmem => hnew ?_, h.sessionIds⟩
      obtain ⟨x, hx, hid⟩ := List.mem_map.mp hmem
      exact List.any_eq_true.mpr ⟨x, hx, beq_iff_eq.mpr hid⟩
  | paySession sessionId =>
    -- the session is paid, and the others are as they were
    refine h.stripe _ s.charges ⟨fun x hx hpaid => ?_, fun c hc =>
      ⟨c, hc, rfl, rfl, rfl, fun _ hr _ => hr⟩⟩ ?_ h.chargeIds h.refundIds
    · refine List.mem_map.mpr ⟨x, hx, ?_⟩
      split
      · cases x
        cases hpaid
        rfl
      · rfl
    · rw [List.map_map, List.map_congr_left fun x _ => ?_]
      · exact h.sessionIds
      · rw [Function.comp_apply]
        split <;> rfl
  | createCharge charge =>
    simp only [paymentMachine]
    split
    · exact h
    · next hnew =>
      refine h.stripe s.sessions _ ⟨fun x hx _ => hx, fun c hc =>
        ⟨c, List.mem_append_left _ hc, rfl, rfl, rfl, fun _ hr _ => hr⟩⟩ h.sessionIds ?_ ?_
      · rw [List.map_append, List.map_singleton, List.nodup_append_comm]
        refine List.nodup_cons.mpr ⟨fun hmem => hnew ?_, h.chargeIds⟩
        obtain ⟨c, hc, hid⟩ := List.mem_map.mp hmem
        exact List.any_eq_true.mpr ⟨c, hc, beq_iff_eq.mpr hid⟩
      · -- the new charge has no refunds
        intro c hc c' hc' r hr r' hr' hid
        rcases List.mem_append.mp hc with hc | hc <;> rcases List.mem_append.mp hc' with hc' | hc'
        · exact h.refundIds c hc c' hc' r hr r' hr' hid
        · rw [List.mem_singleton.mp hc'] at hr'
          exact absurd hr' List.not_mem_nil
        · rw [List.mem_singleton.mp hc] at hr
          exact absurd hr List.not_mem_nil
        · rw [List.mem_singleton.mp hc, List.mem_singleton.mp hc']
  | createRefund chargeId refund =>
    simp only [paymentMachine]
    split
    · exact h
    · next hnew =>
      -- no refund has this id yet
      have hfresh : ∀ c ∈ s.charges, ∀ r ∈ c.refunds, r.id ≠ refund.id := fun c hc r hr hid =>
        hnew (List.any_eq_true.mpr ⟨c, hc, List.any_eq_true.mpr ⟨r, hr, beq_iff_eq.mpr hid⟩⟩)
      refine h.mapCharges (fun c => ?_) (fun c hc r hr _ => ?_) fun c hc c' hc' r hr r' hr' hid => ?_
      · split <;> exact ⟨rfl, rfl, rfl, rfl⟩
      · split
        · exact List.mem_cons_of_mem _ hr
        · exact hr
      · -- the new refund is on the one charge of this id
        have hcases : ∀ c ∈ s.charges, ∀ r ∈ (if c.id = chargeId then
            { c with refunds := { refund with succeeded := false } :: c.refunds } else c).refunds,
            r ∈ c.refunds ∨ (c.id = chargeId ∧ r.id = refund.id) := by
          intro c _ r hr
          split at hr
          · next hc =>
            rcases List.mem_cons.mp hr with rfl | hr
            · exact Or.inr ⟨hc, rfl⟩
            · exact Or.inl hr
          · exact Or.inl hr
        rcases hcases c hc r hr with hr | ⟨hc1, hr1⟩ <;> rcases hcases c' hc' r' hr' with hr' | ⟨hc2, hr2⟩
        · -- both are old
          exact h.refundIds c hc c' hc' r hr r' hr' hid
        · -- one of them is new: then the ids differ
          exact absurd (hid.trans hr2) (hfresh c hc r hr)
        · exact absurd (hid.symm.trans hr1) (hfresh c' hc' r' hr')
        · -- both are new: the charges have one id
          exact List.inj_on_of_nodup_map h.chargeIds hc hc' (hc1.trans hc2.symm)
  | refundSucceeds refundId =>
    refine h.mapCharges (fun c => ⟨rfl, rfl, rfl, rfl⟩) (fun c hc r hr hsucceeded => ?_)
      fun c hc c' hc' r hr r' hr' hid => ?_
    · -- the refund has succeeded, under the id it had
      refine List.mem_map.mpr ⟨r, hr, ?_⟩
      split
      · cases r
        cases hsucceeded
        rfl
      · rfl
    · obtain ⟨q, hq, rfl⟩ := List.mem_map.mp hr
      obtain ⟨q', hq', rfl⟩ := List.mem_map.mp hr'
      refine h.refundIds c hc c' hc' q hq q' hq' ?_
      split at hid <;> split at hid <;> exact hid
  | sessionCompleted sessionId stale => exact h.startSession sessionId stale fun _ => rfl
  | sessionAsyncPaymentSucceeded sessionId stale => exact h.startSession sessionId stale fun _ => rfl
  | chargeRefunded chargeId => exact h.startCharge (fun _ => Or.inl rfl) hlisted
  | reconcileCheckout sessionId stale => exact h.startSession sessionId stale fun _ => rfl
  | reconcileRefunds chargeId => exact h.startCharge (fun _ => Or.inr rfl) hlisted
  | call handler outcome => exact h.call handler outcome

/-! ## One row each -/

/-- Keys of sessions and of refunds differ. -/
theorem checkoutKey_ne_refundKey (sessionId refundId : Str) :
    checkoutKey sessionId ≠ refundKey refundId := by
  intro h
  have happend : "stripe:cs:".toList ++ sessionId = "stripe:re:".toList ++ refundId := h
  have hlength : ("stripe:cs:".toList).length = ("stripe:re:".toList).length := by decide +kernel
  have hne : "stripe:cs:".toList ≠ "stripe:re:".toList := by decide +kernel
  exact hne (List.append_inj happend hlength).1

private theorem checkoutKey_inj {id id' : Str} (h : checkoutKey id = checkoutKey id') : id = id' :=
  List.append_cancel_left h

theorem refundKey_inj {id id' : Str} (h : refundKey id = refundKey id') : id = id' :=
  List.append_cancel_left h

/-- The rows of one key are in one ledger. -/
private theorem Inv.team_eq (h : s.Inv) {teamId teamId' : Str} {row row' : LedgerRow}
    (hrow : row ∈ (s.accounts teamId).ledger) (hrow' : row' ∈ (s.accounts teamId').ledger)
    (hkey : row.idempotencyKey = row'.idempotencyKey) : teamId = teamId' := by
  rcases h.rows teamId row hrow with ⟨x, hx, -, hteam, hk, -⟩ | ⟨c, hc, r, hr, -, hteam, hk, -⟩ <;>
    rcases h.rows teamId' row' hrow' with
      ⟨x', hx', -, hteam', hk', -⟩ | ⟨c', hc', r', hr', -, hteam', hk', -⟩ <;>
    rw [hk, hk'] at hkey <;> have hkey := Option.some.inj hkey
  · obtain rfl := List.inj_on_of_nodup_map h.sessionIds hx hx' (checkoutKey_inj hkey)
    exact Option.some.inj (hteam.symm.trans hteam')
  · exact absurd hkey (checkoutKey_ne_refundKey _ _)
  · exact absurd hkey.symm (checkoutKey_ne_refundKey _ _)
  · rw [← hteam, ← hteam', h.refundIds c hc c' hc' r hr r' hr' (refundKey_inj hkey)]

/-- The invariant gives what the payments promise. -/
theorem Inv.safe (h : s.Inv) : s.Safe where
  rows := h.rows
  once := ⟨h.keys, fun teamId teamId' row hrow row' hrow' hkey => by
    obtain rfl := h.team_eq hrow hrow' hkey
    exact ⟨rfl, List.inj_on_of_nodup_map (h.keys teamId) hrow hrow' hkey⟩⟩
  recorded := h.returned

/-- A handler whose calls go through returns, and has written their rows. -/
theorem calls_return {source : PaymentSource} {calls : List TopUpCall}
    (hrunning : s.running = [(source, calls)]) (hne : calls ≠ [])
    (haccepts : ∀ call ∈ calls, acceptsTopUp call.input = true) :
    let s' := paymentMachine.runFrom s (List.replicate calls.length (.call 0 .ok))
    s'.returned = s.returned ++ [source] ∧
      ∀ teamId key, (s'.accounts teamId).hasKey key = true ↔
        (s.accounts teamId).hasKey key = true ∨
          ∃ call ∈ calls, call.teamId = teamId ∧ call.input.idempotencyKey = key := by
  induction calls generalizing s with
  | nil => exact absurd rfl hne
  | cons call rest ih =>
    have haccepts' := haccepts call List.mem_cons_self
    rw [List.length_cons, List.replicate_succ, Machine.runFrom_cons]
    cases rest with
    -- the last call returns the source
    | nil =>
      have hstep : paymentMachine.step s (.call 0 .ok) =
          { s with running := [], accounts := s.apply call, returned := s.returned ++ [source] } := by
        simp [paymentMachine, PaymentState.call, hrunning, haccepts']
      rw [hstep]
      refine ⟨rfl, fun teamId key => ?_⟩
      rw [← (s.apply_spec haccepts' teamId).1 key |>.trans (or_congr_right (by simp))]
      rfl
    -- there are more calls
    | cons next rest =>
      have hstep : paymentMachine.step s (.call 0 .ok) =
          { s with running := [(source, next :: rest)], accounts := s.apply call } := by
        simp [paymentMachine, PaymentState.call, hrunning, haccepts']
      rw [hstep]
      obtain ⟨hreturned, hkeys⟩ := ih (s := { s with
        running := [(source, next :: rest)], accounts := s.apply call }) rfl nofun
        fun c hc => haccepts c (List.mem_cons_of_mem _ hc)
      refine ⟨hreturned, fun teamId key => (hkeys teamId key).trans ?_⟩
      rw [(s.apply_spec haccepts' teamId).1 key, or_assoc]
      simp only [List.exists_mem_cons_iff]

end PaymentState

/-- In every run in which the refunds of a charge that is handled fit on a page, each row of a ledger
    is the one of a paid session or of a refund that succeeded, each has at most one, and a handler
    that returned without an error has left none out. -/
theorem payments_recorded_once (steps : List PaymentStep)
    (hlisted : paymentMachine.Steps RefundsListed {} steps) : (paymentMachine.run steps).Safe :=
  (Machine.invariant_runFrom PaymentState.inv_step PaymentState.inv_init hlisted).safe

/-! ## More refunds than fit on a page -/

/-- A charge of 1000 credits. -/
def sampleCharge : Charge :=
  { id := "ch".toList, metadataTeamId := some "t".toList, metadataCredits := some 1000, amount := 1000
    amount_pos := by decide }

/-- A refund of one unit. -/
def sampleRefund (n : Nat) : Refund :=
  { id := [Char.ofNat (n + 0x100)], amount := 1, amount_pos := by decide }

/-- A charge is refunded in `n` parts, and the webhook gets an event. -/
def refundedInParts (n : Nat) : List PaymentStep :=
  [.createCharge sampleCharge] ++
    (List.range n).flatMap (fun k =>
      [.createRefund "ch".toList (sampleRefund k), .refundSucceeds (sampleRefund k).id]) ++
    [.chargeRefunded "ch".toList]

/-- The charge after that. -/
def refundedCharge (n : Nat) : Charge :=
  { sampleCharge with
    refunds := ((List.range n).map fun k => { sampleRefund k with succeeded := true }).reverse }

/-- A handler that is left alone and makes no call for something that is due returns all the same. -/
private theorem not_safe_of_no_call (steps : List PaymentStep) (source : PaymentSource)
    (calls : List TopUpCall) (teamId key : Str)
    (hrunning : (paymentMachine.run steps).running = [(source, calls)])
    (hne : calls ≠ []) (haccepts : ∀ call ∈ calls, acceptsTopUp call.input = true)
    (hdue : (teamId, key) ∈ source.due)
    (hempty : ((paymentMachine.run steps).accounts teamId).hasKey key = false)
    (hnone : ¬ ∃ call ∈ calls, call.teamId = teamId ∧ call.input.idempotencyKey = key) :
    ¬ ∀ steps, (paymentMachine.run steps).Safe := by
  intro hall
  obtain ⟨hreturned, hkeys⟩ := PaymentState.calls_return hrunning hne haccepts
  have hrun := hall (steps ++ List.replicate calls.length (.call 0 .ok))
  rw [Machine.run, Machine.runFrom_append] at hrun
  have hmem : source ∈ (paymentMachine.run steps).returned ++ [source] :=
    List.mem_append_right _ List.mem_cons_self
  rcases (hkeys teamId key).mp (hrun.recorded source (hreturned.symm ▸ hmem) _ hdue) with hold | hcall
  · exact Bool.false_ne_true (hempty.symm.trans hold)
  · exact hnone hcall

/-- Of 101 refunds the oldest has no row, although the handler returns without an error. -/
theorem refund_beyond_page_lost : ¬ ∀ steps, (paymentMachine.run steps).Safe :=
  not_safe_of_no_call (refundedInParts 101) (.charge (refundedCharge 101))
    ((refundCharge (refundedCharge 101)).toOption.getD []) "t".toList (refundKey (sampleRefund 0).id)
    (by decide +kernel) (by decide +kernel) (by decide +kernel) (by decide +kernel)
    (by decide +kernel) (by decide +kernel)

/-- Two refunds fit on the page.  The answer to the second call is lost, the event comes again, and all
    its calls go through. -/
def refundedAgain : List PaymentStep :=
  refundedInParts 2 ++ [.call 0 .ok, .call 0 .answerLost, .chargeRefunded "ch".toList, .call 0 .ok, .call 0 .ok]

/-- One handler has returned, and there is one row for each refund. -/
theorem payments_recorded_once_inTwoParts :
    (paymentMachine.run refundedAgain).Safe ∧
      (paymentMachine.run refundedAgain).returned = [.charge (refundedCharge 2)] ∧
      ((paymentMachine.run refundedAgain).accounts "t".toList).ledger.length = 2 :=
  ⟨payments_recorded_once refundedAgain (by decide +kernel), by decide +kernel, by decide +kernel⟩

end TeamClu.Credits
