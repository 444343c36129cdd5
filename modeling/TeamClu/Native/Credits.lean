import Mathlib.Algebra.Ring.Int.Defs
import TeamClu.ForStd.Machine
import TeamClu.ForStd.Text

/-!
# The credits ledger of the AI gateway

`services/ai-gateway/src/credits.ts` over the tables of `20260828120000_ai_gateway_credits.sql`, for
the rows of one team.  Each operation is one transaction and one step.  The checks of the top-up and
backfill endpoints of `app.ts` stand before `topUp`.

Amounts are integers.  The settings, quotas and usage rows that `reserve` reads are its argument,
with the clock; the id of a new reservation is the number of reservations so far.

A caller may spell the id of its team in any way that `authed` lets through and the database reads as
that team.  The account has the id as the database writes it.
-/

namespace TeamClu.Credits

/-! ## Tables -/

/-- `credit_ledger.kind`. -/
inductive LedgerKind where
  | topUp
  | grant
  | adjustment
  | usage
  | refund
  deriving DecidableEq

/-- A row of `credit_ledger`. -/
structure LedgerRow where
  kind : LedgerKind
  amountCredits : Int
  idempotencyKey : Option Str := none
  actorId : Option Str := none
  usageLogId : Option Str := none
  note : Option Str := none
  deriving DecidableEq

/-- `credit_reservation.state`. -/
inductive ReservationState where
  | held
  | settled
  | expired
  deriving DecidableEq

/-- A row of `credit_reservation`; its check constraint makes the amount a natural number. -/
structure Reservation where
  id : Nat
  actorId : Str
  amountCredits : Nat
  state : ReservationState := .held
  expiresAt : Nat
  deriving DecidableEq

/-- The rows of one team. -/
structure Account where
  teamId : Str
  balanceCredits : Option Int := none
  ledger : List LedgerRow := []
  reservations : List Reservation := []
  deriving DecidableEq

/-- The period of the quotas of a team. -/
inductive Period where
  | week
  | month
  deriving DecidableEq

/-- A row of `team_credit_settings`. -/
structure CreditSettings where
  period : Period
  defaultLimitCredits : Option Int
  deriving DecidableEq

/-- A row of `ai_usage_logs`. -/
structure UsageLog where
  actorId : Str
  credits : Int
  createdAt : Nat
  deriving DecidableEq

/-! ## Team ids -/

/-- A digit of a uuid, in upper or lower case. -/
def isHexDigit (c : Char) : Bool := c.isDigit || 'a' ≤ c.toLower && c.toLower ≤ 'f'

/-- `/^[0-9a-f-]{36}$/i` of `authed`. -/
def acceptsTeamId (spelling : Str) : Bool :=
  spelling.length == 36 && spelling.all fun c => isHexDigit c || c == '-'

/-- The bytes of a uuid that are still to be read, as the database reads them: after an even number of them but the
    last there may be a hyphen. -/
def readUuid : Nat → Str → Option Str
  | 0, [] => some []
  | n + 1, c :: d :: rest =>
    if isHexDigit c && isHexDigit d then
      let rest := if n % 2 = 0 ∧ n ≠ 0 ∧ rest.head? = some '-' then rest.tail else rest
      (readUuid n rest).map fun digits => c.toLower :: d.toLower :: digits
    else none
  | _, _ => none

/-- The text of a uuid with these digits. -/
def uuidText (digits : Str) : Str :=
  digits.take 8 ++ '-' :: (digits.drop 8).take 4 ++ '-' :: (digits.drop 12).take 4 ++
    '-' :: (digits.drop 16).take 4 ++ '-' :: digits.drop 20

/-- `${teamId}::uuid`, as the database writes it. -/
def uuidOf (spelling : Str) : Option Str := (readUuid 16 spelling).map uuidText

/-- What `reserve` reads besides the account, and the clock. -/
structure QuotaTables where
  now : Nat
  /-- The first `select` has found no balance row: another transaction has made the row since then. -/
  foundNoRow : Bool := false
  periodStart : Period → Nat
  settings : Option CreditSettings := none
  /-- The row of a member, with its limit. -/
  memberQuota : Str → Option (Option Int) := fun _ => none
  usage : List UsageLog := []

namespace Account

/-- The credits in reservations that are held and satisfy `p`. -/
def heldBy (a : Account) (p : Reservation → Bool) : Int :=
  ((a.reservations.filter fun r => p r && r.state == .held).map fun r => (r.amountCredits : Int)).sum

/-- `coalesce(sum(amount_credits), 0)` over the held reservations. -/
def held (a : Account) : Int := a.heldBy fun _ => true

/-- The balance, 0 without a row. -/
def balance (a : Account) : Int := a.balanceCredits.getD 0

/-- The sum of the ledger. -/
def ledgerCredits (a : Account) : Int := (a.ledger.map (·.amountCredits)).sum

/-- Insert a ledger row and move the balance by its amount. -/
def post (a : Account) (row : LedgerRow) : Account :=
  { a with ledger := a.ledger ++ [row], balanceCredits := some (a.balance + row.amountCredits) }

/-- The unique index holds a row with this key. -/
def hasKey (a : Account) (key : Str) : Bool := a.ledger.any fun row => row.idempotencyKey == some key

/-- `insert … on conflict do nothing`, and the balance when the row is new. -/
def postOnce (a : Account) (row : LedgerRow) (key : Str) : Account :=
  if a.hasKey key then a else a.post { row with idempotencyKey := some key }

/-- Set the state of a reservation that is held. -/
def closeReservation (a : Account) (id : Nat) (state : ReservationState) : Account :=
  { a with reservations := a.reservations.map fun r =>
      if r.id = id ∧ r.state = .held then { r with state } else r }

end Account

/-! ## Operations -/

/-- Credits granted to a team on first provisioning. -/
def SIGNUP_GRANT_CREDITS : Int := 10000000

/-- The key under which a team gets its signup grant. -/
def signupKey (teamId : Str) : Str := "signup_grant:".toList ++ teamId

/-- `grantSignupInTx`: the key has the team id as the caller spells it. -/
def grantSignupInTx (a : Account) (teamId : Str) : Account :=
  a.postOnce { kind := .grant, amountCredits := SIGNUP_GRANT_CREDITS
               note := some "signup grant (first use)".toList } (signupKey teamId)

/-- `resolveQuota`: the limit of a member and the start of its period, `none` when unlimited. -/
def resolveQuota (tables : QuotaTables) (actorId actorType : Str) : Option (Int × Nat) :=
  let period := (tables.settings.map (·.period)).getD .month
  let limit := match tables.memberQuota actorId with
    | some limit => limit
    | none =>
      if actorType = "agent".toList then none
      else tables.settings.bind (·.defaultLimitCredits)
  limit.map fun limit => (limit, tables.periodStart period)

structure ReserveInput where
  /-- As the caller spells it. -/
  teamId : Str
  actorId : Str
  actorType : Str
  /-- Conservative upper bound on what this request can cost. -/
  holdCredits : Int
  /-- How long the hold survives, in seconds. -/
  ttl : Nat := 10 * 60

/-- How a reservation ends. -/
inductive ReserveResult where
  | ok (reservationId : Nat)
  | insufficientCredits
  | quotaExceeded
  /-- The check constraint of the reservations refuses the row: the transaction is rolled back. -/
  | checkViolation
  deriving DecidableEq

/-- What the request would bring the member to in this period. -/
def projected (a : Account) (tables : QuotaTables) (input : ReserveInput) (since : Nat) : Int :=
  ((tables.usage.filter fun u => u.actorId == input.actorId && since ≤ u.createdAt).map
    (·.credits)).sum + a.heldBy (·.actorId == input.actorId) + input.holdCredits

/-- `reserve` finds no balance row for its `for update`. -/
def findsNoRow (a : Account) (tables : QuotaTables) : Bool := a.balanceCredits.isNone || tables.foundNoRow

/-- First contact: a team without a balance row has never been credited. -/
def firstContact (a : Account) (tables : QuotaTables) (teamId : Str) : Account :=
  if findsNoRow a tables then grantSignupInTx a teamId else a

/-- `reserve`: take a hold against the team balance and the member's period quota. -/
def reserve (a : Account) (tables : QuotaTables) (input : ReserveInput) : Account × ReserveResult :=
  let granted := firstContact a tables input.teamId
  if granted.balance - granted.held < input.holdCredits then (granted, .insufficientCredits)
  else if (resolveQuota tables input.actorId input.actorType).any fun (limit, since) =>
      limit < projected granted tables input since then (granted, .quotaExceeded)
  else if input.holdCredits < 0 then (a, .checkViolation)
  else
    let id := granted.reservations.length
    ({ granted with reservations := granted.reservations ++
        [{ id, actorId := input.actorId, amountCredits := input.holdCredits.toNat
           expiresAt := tables.now + input.ttl }] }, .ok id)

structure SettleInput where
  reservationId : Option Nat
  actorId : Option Str
  credits : Int
  usageLogId : Str

/-- `settle`: charge the actual cost and release the hold. -/
def settle (a : Account) (input : SettleInput) : Account :=
  let charged :=
    if 0 < input.credits then
      a.post { kind := .usage, amountCredits := -input.credits, actorId := input.actorId
               usageLogId := some input.usageLogId }
    else a
  match input.reservationId with
  | some id => charged.closeReservation id .settled
  | none => charged

/-- `release`: drop a hold whose request never produced a charge. -/
def release (a : Account) (reservationId : Option Nat) : Account :=
  match reservationId with
  | some id => a.closeReservation id .expired
  | none => a

/-- `sweepExpired`: release holds whose requests never came back. -/
def sweepExpired (a : Account) (now : Nat) : Account :=
  { a with reservations := a.reservations.map fun r =>
      if r.state = .held ∧ r.expiresAt < now then { r with state := .expired } else r }

structure TopUpInput where
  amountCredits : Int
  kind : LedgerKind
  idempotencyKey : Str
  note : Option Str := none

/-- `topUp`: add credits to a team, once per idempotency key. -/
def topUp (a : Account) (input : TopUpInput) : Account :=
  a.postOnce { kind := input.kind, amountCredits := input.amountCredits, note := input.note }
    input.idempotencyKey

/-- The checks of the top-up endpoint: the sign belongs to the kind. -/
def acceptsTopUp (input : TopUpInput) : Bool :=
  input.amountCredits ≠ 0 && input.idempotencyKey ≠ [] &&
    match input.kind with
    | .topUp | .grant => 0 ≤ input.amountCredits
    | .refund => input.amountCredits ≤ 0
    | .adjustment => true
    | .usage => false

/-- `applyTopUp`: a request that fails a check changes nothing. -/
def applyTopUp (a : Account) (input : TopUpInput) : Account :=
  if acceptsTopUp input then topUp a input else a

/-- The grant of `backfillSignupGrants` for this team, whose endpoint wants a positive amount.  The scan before it leaves
    out a team that has a row under the key, which `topUp` would leave alone too. -/
def backfillSignupGrant (a : Account) (amountCredits : Int) : Account :=
  if amountCredits ≤ 0 then a
  else topUp a { kind := .grant, amountCredits, idempotencyKey := signupKey a.teamId
                 note := some "signup grant (backfill)".toList }

/-! ## Runs -/

/-- A transaction on the rows of the team. -/
inductive CreditEvent where
  | reserve (tables : QuotaTables) (input : ReserveInput)
  | settle (input : SettleInput)
  | release (reservationId : Option Nat)
  | sweepExpired (now : Nat)
  | topUp (input : TopUpInput)
  | backfill (amountCredits : Int)

/-- The request passes `authed` and the casts of the database for the team. -/
def Account.isNamed (a : Account) (spelling : Str) : Bool :=
  acceptsTeamId spelling && uuidOf spelling == some a.teamId

/-- One transaction. -/
def Account.step (a : Account) (e : CreditEvent) : Account :=
  match e with
  | .reserve tables input =>
    if a.isNamed input.teamId then (Credits.reserve a tables input).1 else a
  | .settle input => Credits.settle a input
  | .release id => Credits.release a id
  | .sweepExpired now => Credits.sweepExpired a now
  | .topUp input => applyTopUp a input
  | .backfill amount => backfillSignupGrant a amount

/-- The runs of one team, from no rows. -/
def creditMachine (teamId : Str) : Machine Account CreditEvent where
  init := { teamId }
  step := Account.step

end TeamClu.Credits
