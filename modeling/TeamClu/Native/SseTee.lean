import TeamClu.ForStd.Machine
import TeamClu.ForStd.Utf8

/-!
# The usage tee of the AI gateway

`teeSseUsage`, `handleEvent`, `readUsage` and `generatedBytes` of `services/ai-gateway/src/proxy.ts`.
The numbers of JavaScript and `JSON.parse` are parameters.  A parsed object answers `toString` and
`valueOf` with its own field of that name, which is no function; a count that is such an object cannot
be converted, and `Number` throws.
-/

namespace TeamClu.Gateway

/-- A string of JavaScript, as its UTF-16 code units. -/
abbrev JsStr := List UInt16

/-- A text of the source as a string. -/
def js (s : String) : JsStr := Str.utf16 s.toList

/-- The numbers of JavaScript: those that are written in the source, the conversions from and to a
    string, and the test for a finite one. -/
structure JsNumbers (N : Type) where
  ofNat : Nat → N
  ofText : JsStr → N
  toText : N → JsStr
  isFinite : N → Bool

/-- What `JSON.parse` gives; the names of an object are different. -/
inductive Json (N : Type) where
  | null
  | bool (b : Bool)
  | num (n : N)
  | str (s : JsStr)
  | arr (items : List (Json N))
  | obj (fields : List (JsStr × Json N))

section Values

variable {N : Type} (numbers : JsNumbers N)

/-- A field of a value; `none` is `undefined`. -/
def Json.get (field : JsStr) : Json N → Option (Json N)
  | .obj fields => fields.lookup field
  | _ => none

/-- `a ?? b`. -/
def orElse : Option (Json N) → Option (Json N) → Option (Json N)
  | none, b | some .null, b => b
  | a, _ => a

mutual

/-- The string of a value; `none` is a `TypeError`. -/
def Json.text : Json N → Option JsStr
  | .null => some (js "null")
  | .bool b => some (js (if b then "true" else "false"))
  | .num n => some (numbers.toText n)
  | .str s => some s
  | .arr items => Json.join items
  | .obj fields => if (fields.lookup (js "toString")).isSome then none else some (js "[object Object]")

/-- `join()`: null is the empty text. -/
def Json.join : List (Json N) → Option JsStr
  | [] => some []
  | [.null] => some []
  | [item] => Json.text item
  | .null :: items => (Json.join items).map (js "," ++ ·)
  | item :: items => do
    let first ← Json.text item
    let rest ← Json.join items
    some (first ++ js "," ++ rest)

end

/-- `Number(value)`; `none` is a `TypeError`. -/
def Json.number : Json N → Option N
  | .null => some (numbers.ofNat 0)
  | .bool b => some (numbers.ofNat (if b then 1 else 0))
  | .num n => some n
  | .str s => some (numbers.ofText s)
  | value => (value.text numbers).map numbers.ofText

/-- `Number(value ?? 0)`. -/
def numberOrZero (value : Option (Json N)) : Option N :=
  match orElse value none with
  | some value => value.number numbers
  | none => some (numbers.ofNat 0)

/-- `UpstreamUsage`. -/
structure UpstreamUsage (N : Type) where
  inputTokens : N
  cachedInputTokens : N
  outputTokens : N
  deriving DecidableEq

/-- Whether the value is an object or an array. -/
def Json.isObject : Json N → Bool
  | .obj _ | .arr _ => true
  | _ => false

/-- The usage of a parsed chunk: `none` when it throws, `some none` when there is none. -/
def readUsage (obj : Json N) : Option (Option (UpstreamUsage N)) :=
  match obj.get (js "usage") with
  | none => some none
  | some u =>
    if !u.isObject then some none
    else do
      let input ← numberOrZero numbers (u.get (js "prompt_tokens"))
      let cached ← numberOrZero numbers (orElse (u.get (js "prompt_cache_hit_tokens"))
        ((u.get (js "prompt_tokens_details")).bind (·.get (js "cached_tokens"))))
      let output ← numberOrZero numbers (u.get (js "completion_tokens"))
      some (some {
        inputTokens := input
        cachedInputTokens := if numbers.isFinite cached then cached else numbers.ofNat 0
        outputTokens := output })

/-- `Buffer.byteLength`: the UTF-8 bytes of a string; half a surrogate pair is written as three. -/
def byteLength : JsStr → Nat
  | [] => 0
  | [c] => if c < 0x80 then 1 else if c < 0x800 then 2 else 3
  | c :: d :: rest =>
    if 0xD800 ≤ c ∧ c < 0xDC00 ∧ 0xDC00 ≤ d ∧ d < 0xE000 then 4 + byteLength rest
    else (if c < 0x80 then 1 else if c < 0x800 then 2 else 3) + byteLength (d :: rest)

/-- The bytes of a value that is a string. -/
def stringBytes : Option (Json N) → Nat
  | some (.str s) => byteLength s
  | _ => 0

/-- The items of a value that is an array. -/
def itemsOf : Option (Json N) → List (Json N)
  | some (.arr items) => items
  | _ => []

/-- The bytes that one choice generated. -/
def choiceBytes (choice : Json N) : Nat :=
  match orElse (choice.get (js "delta")) (choice.get (js "message")) with
  | some m =>
    if !m.isObject then 0
    else
      (([js "content", js "reasoning_content", js "reasoning", js "refusal"].map fun k =>
          stringBytes (m.get k)).sum) +
        ((itemsOf (m.get (js "tool_calls"))).map fun t =>
          let function := t.get (js "function")
          stringBytes (function.bind (·.get (js "name"))) +
            stringBytes (function.bind (·.get (js "arguments")))).sum
  | none => 0

/-- UTF-8 bytes of everything a chunk generated. -/
def generatedBytes (obj : Json N) : Nat := ((itemsOf (obj.get (js "choices"))).map choiceBytes).sum

end Values

/-! ## One event -/

/-- What handling an event does: the text that is passed on, the call of `onUsage`, and the bytes that
    are added to the tally. -/
structure Handled (N : Type) where
  text : Str
  usage : Option (UpstreamUsage N) := none
  bytes : Nat := 0

/-- The options and the environment of a tee. -/
structure TeeOpts (N : Type) where
  numbers : JsNumbers N
  /-- `JSON.parse`; `none` when it throws. -/
  parse : Str → Option (Json N)
  dropUsageOnlyFrame : Bool

section Tee

variable {N : Type} (opts : TeeOpts N)

/-- The value in the first data line of an event, if there is one. -/
def eventValue (rawEvent : Str) : Option (Json N) :=
  match (rawEvent.splitOn '\n').find? ("data:".toList.isPrefixOf ·) with
  | none => none
  | some line =>
    let payload := Str.jsTrim (line.drop 5)
    if payload = [] ∨ payload = "[DONE]".toList then none else opts.parse payload

/-- `Array.isArray(obj.choices) && obj.choices.length === 0`. -/
def noChoices (obj : Json N) : Bool :=
  match obj.get (js "choices") with
  | some (.arr []) => true
  | _ => false

/-- `handleEvent`; `none` when it throws. -/
def handleEvent (rawEvent : Str) : Option (Handled N) :=
  match eventValue opts rawEvent with
  | none => some { text := rawEvent }
  | some obj =>
    match readUsage opts.numbers obj with
    | none => none
    | some usage =>
      let isUsageOnly := usage.isSome && noChoices obj
      some {
        text := if isUsageOnly && opts.dropUsageOnlyFrame then [] else rawEvent
        usage := usage
        bytes := generatedBytes obj }

/-! ## The stream -/

/-- The loop over `buf.indexOf("\n\n")`: the events up to a blank line, and what is left in `buf`. -/
def cutEvents : Str → List Str × Str
  | '\n' :: '\n' :: rest =>
    let (events, tail) := cutEvents rest
    (['\n', '\n'] :: events, tail)
  | c :: rest =>
    match cutEvents rest with
    | (event :: events, tail) => ((c :: event) :: events, tail)
    | ([], tail) => ([], c :: tail)
  | [] => ([], [])

/-- `decoder.decode(value, { stream: true })` on bytes of valid UTF-8: the longest text that they begin
    with, and the bytes of a character that is not complete. -/
def decodeStream (bytes : List UInt8) : Str × List UInt8 :=
  let cut := (List.range 4).findSome? fun k =>
    (Str.fromUtf8 (bytes.take (bytes.length - k))).map (·, bytes.drop (bytes.length - k))
  cut.getD ([], bytes)

/-- How a stream ended. -/
inductive Outcome where
  | complete
  | cancelled
  | errored
  deriving DecidableEq

/-- What the consumer sees of the stream: it is open, it closes behind its chunks, it failed and its
    chunks are lost, or the consumer hung up. -/
inductive StreamState where
  | readable
  | closed
  | errored
  | cancelled
  deriving DecidableEq

/-- A tee. -/
structure Tee (N : Type) where
  /-- The bytes that the decoder holds, and whether it is still at the start of the stream. -/
  pending : List UInt8 := []
  atStart : Bool := true
  buf : Str := []
  generated : Nat := 0
  ended : Bool := false
  /-- Whether the loop of `start` is still running. -/
  reading : Bool := true
  stream : StreamState := .readable
  /-- The bytes that were enqueued. -/
  output : List UInt8 := []
  /-- The calls of `onUsage` and of `onEnd`. -/
  usages : List (UpstreamUsage N) := []
  ends : List (Outcome × Nat) := []

/-- What happens next: a read gives a chunk, the end of the upstream or its failure, or the consumer
    cancels. -/
inductive TeeInput where
  | read (chunk : List UInt8)
  | finish
  | fail
  | cancel

/-- `end`. -/
def Tee.finish (s : Tee N) (outcome : Outcome) : Tee N :=
  if s.ended then s else { s with ended := true, ends := s.ends ++ [(outcome, s.generated)] }

/-- An event that was handled: its text is enqueued. -/
def Tee.push (s : Tee N) (handled : Handled N) : Tee N :=
  { s with
    output := s.output ++ Str.utf8 handled.text
    usages := s.usages ++ handled.usage.toList
    generated := s.generated + handled.bytes }

/-- Handle events in turn; `true` when one of them throws. -/
def Tee.handleAll : Tee N → List Str → Tee N × Bool
  | s, [] => (s, false)
  | s, event :: events =>
    match handleEvent opts event with
    | none => (s, true)
    | some handled => (s.push handled).handleAll events

/-- The `catch` of `start`: what was enqueued is lost. -/
def Tee.error (s : Tee N) : Tee N :=
  { s.finish .errored with reading := false, stream := .errored }

/-- One step of the tee. -/
def teeStep (s : Tee N) : TeeInput → Tee N
  | .read chunk =>
    if !s.reading then s
    else if s.ended then { s with reading := false }
    else
      let (text, pending) := decodeStream (s.pending ++ chunk)
      -- a byte order mark at the start is left out
      let text' := if s.atStart && text.head? == some '\uFEFF' then text.tail else text
      let (events, buf) := cutEvents (s.buf ++ text')
      let s := { s with pending := pending, atStart := s.atStart && text.isEmpty, buf := buf }
      match s.handleAll opts events with
      | (s, false) => s
      | (s, true) => s.error
  | .finish =>
    if !s.reading then s
    else if s.ended then { s with reading := false }
    else
      match s.handleAll opts (if s.buf = [] then [] else [s.buf]) with
      | (s, false) => { s.finish .complete with reading := false, stream := .closed }
      | (s, true) => s.error
  | .fail =>
    if !s.reading then s
    else if s.ended then { s with reading := false }
    else s.error
  | .cancel =>
    if s.ended then s else { s.finish .cancelled with stream := .cancelled }

/-- A tee on a fresh upstream. -/
def teeMachine : Machine (Tee N) TeeInput where
  init := {}
  step := teeStep opts

end Tee

end TeamClu.Gateway
