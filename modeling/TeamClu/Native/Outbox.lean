import Std.Data.ExtTreeMap
import Mathlib.Data.List.Sort
import Mathlib.Logic.Function.Basic
import TeamClu.ForStd.Machine
import TeamClu.ForStd.Text

/-!
# The outbox of the iOS app

`OutboxSender.swift` of `AMUXCore` drains the `OutboxMessage` rows of a store.  Any number of loops
run, each attempting one row at a time; an attempt suspends at its awaits, and a set of leases that
all loops share keeps two of them off one message.  A kill of the app leaves the stored rows only.
Instants are milliseconds.
-/

namespace TeamClu.Outbox

/-! ## Rows -/

/-- `OutboxState`. -/
inductive OutboxState where
  /-- Newly enqueued, or scheduled for a retry. -/
  | pending
  /-- A sender is attempting it. -/
  | inFlight
  | delivered
  /-- The retry budget is exceeded. -/
  | failed
  deriving DecidableEq

/-- `OutboxMessage`, as far as the sender decides on it. -/
structure OutboxMessage where
  state : OutboxState := .pending
  createdAt : Nat
  attemptCount : Nat := 0
  lastAttemptAt : Option Nat := none
  lastError : Option Str := none
  nextAttemptAt : Option Nat := none
  attachmentIDs : List Str := []
  deriving DecidableEq

/-- The stored rows by their `messageID`. -/
abbrev Store := Std.ExtTreeMap Str OutboxMessage

/-- `OutboxSender.maxAttempts`. -/
def maxAttempts : Nat := 20

/-- `backoff(forAttempt:)`. -/
def backoff (attempt : Nat) : Nat := min (500 * 2 ^ min (attempt - 1) 6) 30000

/-- What `sendMessage` comes to: it returns, it throws a 409, or it throws another error. -/
inductive SendOutcome where
  | sent
  | conflict
  | error (text : Str)

namespace OutboxMessage

/-- `retry`: a failed row is brought back. -/
def rearm (row : OutboxMessage) : OutboxMessage :=
  { row with state := .pending, attemptCount := 0, nextAttemptAt := none, lastError := none }

/-- The row is marked before the send. -/
def markInFlight (row : OutboxMessage) (now : Nat) : OutboxMessage :=
  { row with state := .inFlight, lastAttemptAt := some now }

/-- The attachments failed or timed out. -/
def failAttachments (row : OutboxMessage) : OutboxMessage :=
  { row with state := .failed, lastError := some "Attachment upload failed or timed out".toList }

/-- The row after the send. -/
def settle (row : OutboxMessage) (now : Nat) : SendOutcome → OutboxMessage
  | .sent | .conflict => { row with state := .delivered, lastError := none }
  | .error text =>
    let row := { row with attemptCount := row.attemptCount + 1, lastError := some text }
    if maxAttempts ≤ row.attemptCount then { row with state := .failed, nextAttemptAt := none }
    else { row with state := .pending, nextAttemptAt := some (now + backoff row.attemptCount) }

end OutboxMessage

/-- `enqueue`: a row that exists stays. -/
def enqueue (store : Store) (messageID : Str) (now : Nat) : Store :=
  if store.contains messageID then store else store.insert messageID { createdAt := now }

/-- `retry`. -/
def retry (store : Store) (messageID : Str) : Store :=
  match store[messageID]? with
  | none => store
  | some row => if row.state = .failed then store.insert messageID row.rearm else store

/-- A row that may be attempted at an instant. -/
def isDue (row : OutboxMessage) (now : Nat) : Bool :=
  row.state = .pending && row.nextAttemptAt.all (· ≤ now)

/-- `fetchDue`: the rows that are due, in the order of their creation. -/
def fetchDue (store : Store) (now : Nat) : List Str :=
  ((store.toList.filter fun e => isDue e.2 now).insertionSort
    fun a b => a.2.createdAt ≤ b.2.createdAt).map Prod.fst

/-! ## Loops and attempts -/

/-- Where an attempt that has its lease is suspended.  It holds the row as it is in its context. -/
inductive Phase where
  /-- The lease is acquired. -/
  | leased
  /-- It waits for the attachments. -/
  | waiting (row : OutboxMessage)
  /-- It waits for `sendMessage`. -/
  | sending (row : OutboxMessage)
  /-- It waits for `onDelivered`. -/
  | notifying

/-- A loop of a sender: the rows it has fetched, and its attempt. -/
structure Loop where
  due : List Str := []
  attempt : Option (Str × Phase) := none

/-- The stored rows and the memory of the app. -/
structure World where
  store : Store := ∅
  /-- The leases. -/
  activeMessageIDs : List Str := []
  /-- The loops of all senders. -/
  loops : Nat → Loop := fun _ => {}
  /-- The leases whose release is spawned. -/
  releases : List Str := []

namespace World

variable (w : World)

/-- Saving a row may fail, which the sender does not notice. -/
def save (saved : Bool) (messageID : Str) (row : OutboxMessage) : World :=
  if saved then { w with store := w.store.insert messageID row } else w

/-- The attempt goes on to its next await, or it returns and spawns the release of its lease. -/
def moveOn (i : Nat) (messageID : Str) (next : Option Phase) : World :=
  { w with
    loops := Function.update w.loops i
      { due := (w.loops i).due, attempt := next.map (messageID, ·) }
    releases := if next.isSome then w.releases else messageID :: w.releases }

end World

/-- What can happen next.  `saved` tells whether the save of the step goes through. -/
inductive Event where
  | enqueue (messageID : Str) (now : Nat) (saved : Bool)
  | retry (messageID : Str) (saved : Bool)
  /-- A loop fetches the rows that are due. -/
  | fetch (i : Nat) (now : Nat)
  /-- A loop is cancelled: it returns before its next attempt. -/
  | stop (i : Nat)
  /-- A loop turns to its next row and asks for the lease. -/
  | acquire (i : Nat)
  /-- The attempt checks its row and marks it, unless the service is gone. -/
  | mark (i : Nat) (now : Nat) (service saved : Bool)
  /-- The attachments are ready, or they failed. -/
  | attachments (i : Nat) (ready saved : Bool)
  /-- The send is over. -/
  | outcome (i : Nat) (now : Nat) (outcome : SendOutcome) (saved : Bool)
  /-- `onDelivered` returns. -/
  | notified (i : Nat)
  /-- A spawned release runs. -/
  | release (messageID : Str)
  /-- The app is killed. -/
  | kill

/-- The checks of an attempt that has its lease, and the mark. -/
def World.mark (w : World) (i : Nat) (messageID : Str) (now : Nat) (service saved : Bool) : World :=
  if !service then w.moveOn i messageID none
  else
    match w.store[messageID]? with
    | none => w.moveOn i messageID none
    | some row =>
      if !isDue row now then w.moveOn i messageID none
      else
        let row := row.markInFlight now
        (w.save saved messageID row).moveOn i messageID
          (some (if row.attachmentIDs.length > 0 then .waiting row else .sending row))

/-- One step. -/
def step (w : World) : Event → World
  | .enqueue messageID now saved =>
    if saved then { w with store := enqueue w.store messageID now } else w
  | .retry messageID saved => if saved then { w with store := retry w.store messageID } else w
  | .fetch i now =>
    match w.loops i with
    | { due := [], attempt := none } =>
      { w with loops := Function.update w.loops i { due := fetchDue w.store now } }
    | _ => w
  | .stop i => { w with loops := Function.update w.loops i { w.loops i with due := [] } }
  | .acquire i =>
    match w.loops i with
    | { due := messageID :: due, attempt := none } =>
      if messageID ∈ w.activeMessageIDs then
        { w with loops := Function.update w.loops i { due } }
      else
        { w with
          activeMessageIDs := messageID :: w.activeMessageIDs
          loops := Function.update w.loops i { due, attempt := some (messageID, .leased) } }
    | _ => w
  | .mark i now service saved =>
    match (w.loops i).attempt with
    | some (messageID, .leased) => w.mark i messageID now service saved
    | _ => w
  | .attachments i ready saved =>
    match (w.loops i).attempt with
    | some (messageID, .waiting row) =>
      if ready then w.moveOn i messageID (some (.sending row))
      else (w.save saved messageID row.failAttachments).moveOn i messageID none
    | _ => w
  | .outcome i now outcome saved =>
    match (w.loops i).attempt with
    | some (messageID, .sending row) =>
      let row := row.settle now outcome
      (w.save saved messageID row).moveOn i messageID
        (if row.state = .delivered then some .notifying else none)
    | _ => w
  | .notified i =>
    match (w.loops i).attempt with
    | some (messageID, .notifying) => w.moveOn i messageID none
    | _ => w
  | .release messageID =>
    if messageID ∈ w.releases then
      { w with
        activeMessageIDs := w.activeMessageIDs.erase messageID
        releases := w.releases.erase messageID }
    else w
  | .kill => { store := w.store }

/-- The app, from an empty store on. -/
def outbox : Machine World Event := { init := {}, step }

end TeamClu.Outbox
