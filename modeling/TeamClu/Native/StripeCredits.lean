import TeamClu.Native.Credits

/-!
# Stripe payments in the credits ledger

`handleStripeEvent` and what it calls in `services/fc/src/lib/routes/stripe.ts`, and one item of
`stripeReconcileCheckouts` and of `stripeReconcileRefunds` in `services/fc/src/lib/stripe-reconcile.ts`.

A handler first reads Stripe and then calls `topUp` of the gateway once or several times.  Each call
is a transaction of its own, and anything may happen between two of them, so a handler is given here
as the calls that it makes in order.  Amounts in credits are integers below 2^53.
-/

namespace TeamClu.Credits

/-! ## Stripe's objects -/

/-- A Checkout Session.  `metadataCredits` is what `Number` makes of the stamped credits, if that is a
    safe integer; `lineItemCredits` is the total of its line items at the live prices. -/
structure CheckoutSession where
  id : Str
  clientReferenceId : Option Str
  metadataTeamId : Option Str
  metadataCredits : Option Int
  lineItemCredits : Int
  paid : Bool := false
  deriving DecidableEq

/-- A refund, in minor units. -/
structure Refund where
  id : Str
  amount : Nat
  succeeded : Bool := false
  amount_pos : 0 < amount
  deriving DecidableEq

/-- A charge with its refunds, in the order in which Stripe lists them. -/
structure Charge where
  id : Str
  metadataTeamId : Option Str
  metadataCredits : Option Int
  amount : Nat
  refunds : List Refund := []
  amount_pos : 0 < amount
  deriving DecidableEq

/-- An event, with the session or the charge that it carries. -/
inductive StripeEvent where
  | checkoutSessionCompleted (session : CheckoutSession)
  | checkoutSessionAsyncPaymentSucceeded (session : CheckoutSession)
  | chargeRefunded (charge : Charge)
  | other

/-! ## Handlers -/

deriving instance DecidableEq for TopUpInput

/-- A call of the gateway's `topUp`. -/
structure TopUpCall where
  teamId : Str
  input : TopUpInput
  deriving DecidableEq

/-- The errors that a handler throws before its first call. -/
inductive StripeError where
  | stripe_session_unattributed
  | stripe_price_misconfigured
  | stripe_refund_unattributed
  | stripe_refund_unpriced
  deriving DecidableEq

/-- `(s ?? "").trim()`. -/
def trimmed (s : Option Str) : Str := Str.jsTrim (s.getD [])

/-- `idempotency.checkout`. -/
def checkoutKey (sessionId : Str) : Str := "stripe:cs:".toList ++ sessionId

/-- `idempotency.refund`. -/
def refundKey (refundId : Str) : Str := "stripe:re:".toList ++ refundId

/-- `teamIdFromSession`. -/
def teamIdFromSession (session : CheckoutSession) : Option Str :=
  if trimmed session.clientReferenceId ≠ [] then some (trimmed session.clientReferenceId)
  else if trimmed session.metadataTeamId ≠ [] then some (trimmed session.metadataTeamId)
  else none

/-- `creditsForSession`: the stamped credits, else the total of the line items. -/
def creditsForSession (session : CheckoutSession) : Except StripeError Int :=
  match session.metadataCredits with
  | some stamped =>
    if 0 < stamped then .ok stamped
    else if session.lineItemCredits ≤ 0 then .error .stripe_price_misconfigured
    else .ok session.lineItemCredits
  | none =>
    if session.lineItemCredits ≤ 0 then .error .stripe_price_misconfigured
    else .ok session.lineItemCredits

/-- `creditCheckoutSession`. -/
def creditCheckoutSession (session : CheckoutSession) : Except StripeError (List TopUpCall) :=
  match teamIdFromSession session with
  | none => .error .stripe_session_unattributed
  | some teamId => do
    let credits ← creditsForSession session
    return [{ teamId
              input := { amountCredits := credits, kind := .topUp
                         idempotencyKey := checkoutKey session.id
                         note := some ("stripe ".toList ++ session.id) } }]

/-- `Math.ceil((chargedCredits * refund.amount) / charge.amount)`. -/
def refundCredits (chargedCredits : Int) (charge : Charge) (refund : Refund) : Int :=
  -(-(chargedCredits * refund.amount) / charge.amount)

/-- The `limit` of the list call of `refundCharge`. -/
def REFUNDS_LIMIT : Nat := 100

/-- `refundCharge`: one call for each refund that has succeeded, of those that the list call
    returns. -/
def refundCharge (charge : Charge) : Except StripeError (List TopUpCall) :=
  let teamId := trimmed charge.metadataTeamId
  if teamId = [] then .error .stripe_refund_unattributed
  else
    let chargedCredits := charge.metadataCredits.getD 0
    if chargedCredits ≤ 0 then .error .stripe_refund_unpriced
    else
      .ok ((charge.refunds.take REFUNDS_LIMIT).filterMap fun refund =>
        let credits := refundCredits chargedCredits charge refund
        if refund.succeeded && 0 < credits then
          some { teamId
                 input := { amountCredits := -credits, kind := .refund
                            idempotencyKey := refundKey refund.id
                            note := some ("stripe refund ".toList ++ refund.id) } }
        else none)

/-- `handleStripeEvent`.  The refunds of a charge are fetched, so `charge` is the charge as it is now
    and not as the event carries it. -/
def handleStripeEvent (event : StripeEvent) : Except StripeError (List TopUpCall) :=
  match event with
  | .checkoutSessionCompleted session | .checkoutSessionAsyncPaymentSucceeded session =>
    if !session.paid then .ok [] else creditCheckoutSession session
  | .chargeRefunded charge => refundCharge charge
  | .other => .ok []

/-- One session of `stripeReconcileCheckouts`. -/
def reconcileCheckout (session : CheckoutSession) : Except StripeError (List TopUpCall) :=
  if !session.paid then .ok [] else creditCheckoutSession session

/-- One charge of `stripeReconcileRefunds`; a charge without a team is not ours. -/
def reconcileRefunds (charge : Charge) : Except StripeError (List TopUpCall) :=
  if trimmed charge.metadataTeamId = [] then .ok [] else refundCharge charge

end TeamClu.Credits
