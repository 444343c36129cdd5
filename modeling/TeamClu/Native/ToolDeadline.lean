import Mathlib.Data.Rat.Floor
import TeamClu.ForStd.Machine
import TeamClu.ForStd.Text

/-!
# The stuck-tool deadline

`runtime/turn_reply.rs` of the daemon: the timeout that a tool call declares, the deadline that the events of a
turn set and clear, in its two variants, and how long a wait loop may sleep.  An `Instant` is a number of
nanoseconds whose seconds are an `i64`; an addition out of range panics, which is `none`.  How `serde_json` reads
a text is a parameter.
-/

namespace TeamClu.ToolDeadline

/-- A `serde_json::Number`; a float that is read is finite. -/
inductive Number where
  | posInt (n : Nat)
  | negInt (n : Int)
  | float (f : ℚ)

/-- A `serde_json::Value`, down to the values of an object's fields. -/
inductive Value where
  | number (n : Number)
  | string (s : Str)
  | object (fields : List (Str × Value))
  | other

/-- `Value::get` with a field's name. -/
def Value.get (field : Str) : Value → Option Value
  | .object fields => fields.lookup field
  | _ => none

/-- `TOOL_TIMEOUT_GRACE`, in seconds. -/
def toolTimeoutGrace : Nat := 15

/-- `MAX_DECLARED_TOOL_TIMEOUT_SECS`. -/
def maxDeclaredToolTimeoutSecs : Nat := 24 * 3600

/-- `parse_timeout_str`: a `u64` with an optional plus. -/
def parseTimeoutStr (s : Str) : Option Nat :=
  let trimmed := Str.trim s
  let digits := if trimmed.head? = some '+' then trimmed.tail else trimmed
  if digits ≠ [] ∧ digits.all Char.isDigit then
    let n := digits.foldl (fun n c => 10 * n + (c.toNat - 48)) 0
    if n < 2 ^ 64 then some n else none
  else none

/-- `parse_timeout_value`; `as u64` drops the fraction and saturates. -/
def parseTimeoutValue : Value → Option Nat
  | .number (.posInt n) => some n
  | .number (.negInt _) => none
  | .number (.float f) => if 0 < f then some (min ⌊f⌋.toNat (2 ^ 64 - 1)) else none
  | .string s => parseTimeoutStr s
  | _ => none

/-- `parse_timeout_json`. -/
def parseTimeoutJson (fromStr : Str → Option Value) (raw : Str) : Option Nat := do
  let v ← fromStr raw
  parseTimeoutValue (← v.get "timeout".toList)

/-- `declared_tool_timeout_secs`. -/
def declaredToolTimeoutSecs (fromStr : Str → Option Value) (rawInputJson : Str)
    (params : List (Str × Str)) : Option Nat :=
  ((parseTimeoutJson fromStr rawInputJson).or ((params.lookup "timeout".toList).bind parseTimeoutStr)).filter
    fun secs => 0 < secs && secs ≤ maxDeclaredToolTimeoutSecs

/-- What the deadline reads of an ACP event. -/
inductive AcpEvent where
  | toolUse (toolId rawInputJson : Str) (params : List (Str × Str))
  | toolResult (toolId : Str)
  | other

/-- A second, in nanoseconds. -/
def second : Nat := 10 ^ 9

/-- `Instant + Duration`. -/
def instantAdd (t d : Nat) : Option Nat := if t + d < 2 ^ 63 * second then some (t + d) else none

/-- The sum of two `i64`. -/
def i64Add (a b : Int) : Option Int := if -2 ^ 63 ≤ a + b ∧ a + b < 2 ^ 63 then some (a + b) else none

/-- `apply_tool_deadline_from_event`: the new deadline, unless the sum panics. -/
def applyToolDeadlineFromEvent (fromStr : Str → Option Value) (deadline : Option Nat) (now : Nat) :
    AcpEvent → Option (Option Nat)
  | .toolUse _ rawInputJson params =>
    match declaredToolTimeoutSecs fromStr rawInputJson params with
    | none => some none
    | some secs => do
      let later ← instantAdd now (secs * second)
      some (some (← instantAdd later (toolTimeoutGrace * second)))
  | .toolResult _ => some none
  | .other => some deadline

/-- `apply_tool_deadline_unix`. -/
def applyToolDeadlineUnix (fromStr : Str → Option Value) (deadline : Option Int) (nowUnix : Int) :
    AcpEvent → Option (Option Int)
  | .toolUse _ rawInputJson params =>
    match declaredToolTimeoutSecs fromStr rawInputJson params with
    | none => some none
    | some secs => do
      let later ← i64Add nowUnix (if secs < 2 ^ 63 then secs else 2 ^ 63 - 1)
      some (some (← i64Add later toolTimeoutGrace))
  | .toolResult _ => some none
  | .other => some deadline

/-- `idle_remaining_at`. -/
def idleRemainingAt (lastActivity idle now : Nat) : Nat := idle - (now - lastActivity)

/-- `wait_remaining_at`. -/
def waitRemainingAt (lastActivity channelIdle : Nat) (toolDeadline : Option Nat) (now : Nat) : Nat :=
  match toolDeadline with
  | some deadline => min (idleRemainingAt lastActivity channelIdle now) (deadline - now)
  | none => idleRemainingAt lastActivity channelIdle now

/-- The Unix time of an instant, where `boot` is the time at the instants' origin in nanoseconds. -/
def unixTime (boot : Int) (t : Nat) : Int := (t + boot) / second

/-- An event and when it came.  Both clocks are far from the ends of their range. -/
structure TimedEvent (boot : Int) where
  event : AcpEvent
  time : Nat
  time_lt : time < 2 ^ 62 * second
  unix_range : -2 ^ 62 ≤ unixTime boot time ∧ unixTime boot time < 2 ^ 62

/-- The two deadlines of a turn, `none` once a sum has panicked, and next to them the tools in flight: every
    tool that was announced with a valid timeout and has no result yet, with its own deadline. -/
structure Watch where
  instant : Option (Option Nat) := some none
  unix : Option (Option Int) := some none
  running : List (Str × Nat) := []

/-- The tools in flight after an event.  An announcement takes the place of an earlier one of its id. -/
def track (fromStr : Str → Option Value) (running : List (Str × Nat)) (now : Nat) :
    AcpEvent → List (Str × Nat)
  | .toolUse toolId rawInputJson params =>
    let others := running.filter (·.1 ≠ toolId)
    match declaredToolTimeoutSecs fromStr rawInputJson params with
    | some secs => (toolId, now + secs * second + toolTimeoutGrace * second) :: others
    | none => others
  | .toolResult toolId => running.filter (·.1 ≠ toolId)
  | .other => running

/-- One event. -/
def watchStep (fromStr : Str → Option Value) {boot : Int} (s : Watch) (e : TimedEvent boot) : Watch where
  instant := s.instant.bind fun deadline => applyToolDeadlineFromEvent fromStr deadline e.time e.event
  unix := s.unix.bind fun deadline =>
    applyToolDeadlineUnix fromStr deadline (unixTime boot e.time) e.event
  running := track fromStr s.running e.time e.event

/-- The events of a turn. -/
def watchMachine (fromStr : Str → Option Value) (boot : Int) : Machine Watch (TimedEvent boot) where
  init := {}
  step := watchStep fromStr

end TeamClu.ToolDeadline
