import TeamClu.ForStd.Machine

/-!
# The queue of a conversation

`apps/daemon/src/channels/session_queue.rs`: each conversation has a queue with a consumer of its own, which runs one
turn after the other.  The map of queues is behind a lock, and its keys have no part in one another, so that the model
is of one key.  The number of messages ahead, which the chat is told, is left out.

A consumer takes turns with the senders and with the other consumers of its key: one that has waited for too long
closes its queue, refuses what has come in meanwhile, and removes the entry of its key.
-/

namespace TeamClu.SessionQueue

/-- `MAX_QUEUE_SIZE`. -/
def MAX_QUEUE_SIZE : Nat := 5

/-- `RejectReason`. -/
inductive RejectReason
  | timeout
  | queueFull
  | sessionClosed
  deriving DecidableEq

/-- What a consumer is at.  A message is the number of its call of `enqueue`. -/
inductive Phase
  /-- In `recv`. -/
  | waiting
  | processing (msg : Nat)
  /-- In the notice to a message that has waited for too long. -/
  | rejecting (msg : Nat)
  /-- Nothing has come for `IDLE_TIMEOUT`; the queue is not closed yet. -/
  | idle
  /-- In the loop that refuses what is left. -/
  | draining
  | refusing (msg : Nat)
  /-- About to remove the entry of its key. -/
  | leaving
  | done
  deriving DecidableEq

/-- A queue with its consumer. -/
structure Consumer where
  buffer : List Nat := []
  closed : Bool := false
  phase : Phase := .waiting
  deriving DecidableEq

/-- What became of a message. -/
inductive Outcome
  | processed
  | rejected (reason : RejectReason)
  deriving DecidableEq

/-- The queues that were made for one key, and which of them the map has. -/
structure Queues where
  consumers : List Consumer := []
  current : Option Nat := none
  /-- Not in the code: how many messages were sent, in which order the turns began, and what became of them. -/
  sent : Nat := 0
  started : List Nat := []
  outcomes : List (Nat × Outcome) := []
  deriving DecidableEq

/-- What a consumer can do next. -/
inductive Move
  /-- It receives a message; `late` says that the message is older than `message_timeout`. -/
  | receive (late : Bool)
  /-- The turn of a message, or its notice, ends. -/
  | finish
  /-- The time for the next message is over. -/
  | expire
  | close
  /-- No sender is left. -/
  | disconnect
  /-- One round of the loop that refuses. -/
  | drain
  /-- It removes the entry of its key. -/
  | cleanup
  deriving DecidableEq

/-- What can happen next. -/
inductive Event
  | enqueue
  | consumer (k : Nat) (move : Move)
  | shutdown
  deriving DecidableEq

namespace Queues

/-- `create_and_send`. -/
def createAndSend (s : Queues) : Queues :=
  { s with
    consumers := s.consumers ++ [{ buffer := [s.sent] }]
    current := some s.consumers.length
    sent := s.sent + 1 }

/-- `enqueue`. -/
def enqueue (s : Queues) : Queues :=
  match s.current.bind fun k => s.consumers[k]?.map fun c => (k, c) with
  | none => s.createAndSend
  | some (k, c) =>
    if c.closed then s.createAndSend
    else if MAX_QUEUE_SIZE ≤ c.buffer.length then
      { s with sent := s.sent + 1, outcomes := s.outcomes ++ [(s.sent, .rejected .queueFull)] }
    else { s with consumers := s.consumers.set k { c with buffer := c.buffer ++ [s.sent] }, sent := s.sent + 1 }

/-- A consumer is at something else. -/
def goOn (s : Queues) (k : Nat) (c : Consumer) : Queues := { s with consumers := s.consumers.set k c }

/-- A consumer is done with a message. -/
def settle (s : Queues) (k : Nat) (c : Consumer) (msg : Nat) (outcome : Outcome) : Queues :=
  { s.goOn k c with outcomes := s.outcomes ++ [(msg, outcome)] }

/-- One move of a consumer. -/
def consume (s : Queues) (k : Nat) (c : Consumer) : Move → Queues
  | .receive late =>
    match c.phase, c.buffer with
    | .waiting, msg :: buffer =>
      if late then s.goOn k { c with buffer, phase := .rejecting msg }
      else { s.goOn k { c with buffer, phase := .processing msg } with started := s.started ++ [msg] }
    | _, _ => s
  | .finish =>
    match c.phase with
    | .processing msg => s.settle k { c with phase := .waiting } msg .processed
    | .rejecting msg => s.settle k { c with phase := .waiting } msg (.rejected .timeout)
    | .refusing msg => s.settle k { c with phase := .draining } msg (.rejected .sessionClosed)
    | _ => s
  | .expire => if c.phase = .waiting ∧ c.buffer = [] then s.goOn k { c with phase := .idle } else s
  | .close => if c.phase = .idle then s.goOn k { c with closed := true, phase := .draining } else s
  | .disconnect =>
    if c.phase = .waiting ∧ c.buffer = [] ∧ s.current ≠ some k then s.goOn k { c with phase := .draining } else s
  | .drain =>
    match c.phase, c.buffer with
    | .draining, [] => s.goOn k { c with phase := .leaving }
    | .draining, msg :: buffer => s.goOn k { c with buffer, phase := .refusing msg }
    | _, _ => s
  | .cleanup =>
    -- the entry of the key, whichever queue it is of
    if c.phase = .leaving then { s.goOn k { c with phase := .done } with current := none } else s

/-- One step. -/
def step (s : Queues) : Event → Queues
  | .enqueue => s.enqueue
  | .consumer k move =>
    match s.consumers[k]? with
    | none => s
    | some c => s.consume k c move
  | .shutdown => { s with current := none }

end Queues

/-- The runs of the queues of one key. -/
def queues : Machine Queues Event where
  init := {}
  step := Queues.step

end TeamClu.SessionQueue
