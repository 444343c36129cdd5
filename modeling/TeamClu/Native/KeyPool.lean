import Mathlib.Algebra.Order.Field.Rat
import Mathlib.Logic.Function.Basic
import TeamClu.ForStd.Machine
import TeamClu.ForStd.Text

/-!
# Key pools and failover

`KeyPools` of `services/ai-gateway/src/key-pool.ts` and `callUpstream` of `upstream.ts`: any number of calls share the
pools, and interleave at each request and at each body that is read.  Times are in milliseconds.

What only an operator sees of the pools (statistics, the status and text of a failure, the hint of a key) is left out,
and so is what a failed call answers.
-/

namespace TeamClu.KeyPools

/-! ## Verdicts -/

/-- Why a key is out. -/
inductive FailureClass where
  | exhausted
  | rateLimited
  | invalid
  deriving DecidableEq, Repr

/-- Whether the whole account is out, or only the model on it. -/
inductive FailureScope where
  | key
  | model
  deriving DecidableEq, Repr

/-- The failure of a key. -/
structure KeyFailure where
  class_ : FailureClass
  scope : FailureScope
  /-- What the upstream suggested, if anything. -/
  hintMs : Option ℚ := none
  deriving DecidableEq

/-- Whose problem an upstream error response is. -/
inductive Verdict where
  | key (failure : KeyFailure)
  | route
  | caller

/-- `Number` of a string where that is finite, and `Date.parse`. -/
structure Numbers where
  number : Str → Option ℚ
  dateParse : Str → Option ℚ

/-- The line terminators, which `.` does not match; it does not match a pair of surrogates either. -/
def matchesDot (c : Char) : Bool :=
  c != '\n' && c != '\r' && c.toNat != 0x2028 && c.toNat != 0x2029 && decide (c.toNat < 0x10000)

/-- `/^usage.?limit/` -/
def startsUsageLimit (text : Str) : Bool :=
  "usage".toList.isPrefixOf text &&
    let rest := text.drop 5
    "limit".toList.isPrefixOf rest ||
      match rest with
      | c :: rest => matchesDot c && "limit".toList.isPrefixOf rest
      | [] => false

/-- `QUOTA_TEXT.test` -/
def quotaText (text : Str) : Bool :=
  let lower := text.map Char.toLower
  (["quota", "balance", "billing", "credit", "spend", "insufficient"].any fun word => Str.contains lower word.toList) ||
    lower.tails.any startsUsageLimit

/-- A Retry-After this long is not a throttle, whatever the body says. -/
def LONG_RETRY_MS : ℚ := 5 * 60000

/-- Retry-After in ms: delta-seconds or an HTTP date. -/
def retryAfterMs (numbers : Numbers) (value : Option Str) (now : ℚ) : Option ℚ :=
  match value with
  | none => none
  | some value =>
    if Str.jsTrim value = [] then none
    else
      match numbers.number value with
      | some seconds => if 0 ≤ seconds then some (seconds * 1000) else none
      | none => (numbers.dateParse value).map fun date => max 0 (date - now)

/-- `classifyUpstream`, of a response that is not ok. -/
def classifyUpstream (numbers : Numbers) (now : ℚ) (status : Nat) (retryAfter : Option Str) (text : Str) : Verdict :=
  if 500 ≤ status then .route
  else
    let hintMs := retryAfterMs numbers retryAfter now
    if status = 401 then .key { class_ := .invalid, scope := .key }
    else if status = 402 then .key { class_ := .exhausted, scope := .key, hintMs }
    else if status = 429 then
      let exhausted := quotaText text || hintMs.any fun hint => decide (LONG_RETRY_MS ≤ hint)
      .key { class_ := if exhausted then .exhausted else .rateLimited, scope := .model, hintMs }
    else .caller

def MIN_COOLDOWN_MS : ℚ := 1000
def THROTTLE_DEFAULT_MS : ℚ := 10000
def THROTTLE_MAX_MS : ℚ := 60000
def EXHAUSTED_FIRST_MS : ℚ := 60000
def EXHAUSTED_MAX_MS : ℚ := 30 * 60000

/-- The backoff of an exhausted or rejected key. -/
def backoffMs (strikes : Nat) : ℚ := min (EXHAUSTED_FIRST_MS * 2 ^ min (strikes - 1) 10) EXHAUSTED_MAX_MS

/-- How long a key sits out, given this is failure number `strikes` of the same class in a row. -/
def cooldownMs (failure : KeyFailure) (strikes : Nat) : ℚ :=
  if failure.class_ = .rateLimited then
    min THROTTLE_MAX_MS (max MIN_COOLDOWN_MS (failure.hintMs.getD THROTTLE_DEFAULT_MS))
  else
    max MIN_COOLDOWN_MS (match failure.hintMs with
      | some hint => min (backoffMs strikes) hint
      | none => backoffMs strikes)

/-! ## Pools -/

/-- `[...new Set(list)]` -/
def distinct : List Str → List Str
  | [] => []
  | a :: list => a :: (distinct list).filter (· != a)

/-- `parseApiKeys` -/
def parseApiKeys (value : Str) : List Str :=
  distinct ((value.splitOnP fun c => Str.isJsWhiteSpace c || c == ',').filter (· ≠ []))

/-- A key of a provider. -/
structure PooledKey where
  providerId : Str
  /-- sha256 prefix: stable when keys are reordered, and says nothing about the key. -/
  id : Str
  /-- Priority: lower is tried first. -/
  position : Nat
  secret : Str
  deriving DecidableEq, Repr

/-- The keys of a provider, as the constructor of `KeyPools` makes them from its environment variable. -/
def pooledKeys (sha256Hex : Str → Str) (providerId value : Str) : List PooledKey :=
  (parseApiKeys value).zipIdx.map fun (secret, position) =>
    { providerId, id := (sha256Hex secret).take 8, position, secret }

/-- The cooldown of a slot. -/
structure Cooldown where
  class_ : FailureClass
  until_ : ℚ
  strikes : Nat
  at_ : ℚ
  deriving DecidableEq

/-- The slot of the whole key. -/
def WHOLE_KEY : Str := "*".toList

/-- The slot of a model on a key. -/
def slot (key : PooledKey) (model : Str) : Str := key.providerId ++ '\x00' :: (key.id ++ '\x00' :: model)

/-- The cooldown of each slot. -/
abbrev Cooldowns := Str → Option Cooldown

/-- The active cooldowns of a model on a key. -/
def active (cooldowns : Cooldowns) (key : PooledKey) (model : Str) (now : ℚ) : List Cooldown :=
  ([cooldowns (slot key WHOLE_KEY), cooldowns (slot key model)].filterMap id).filter fun c => decide (now < c.until_)

/-- `Math.max` of the ends of the cooldowns, of which there is one. -/
def latestEnd : List Cooldown → ℚ
  | [] => 0
  | [cooldown] => cooldown.until_
  | cooldown :: rest => max cooldown.until_ (latestEnd rest)

/-- The keys that are healthy, in priority order. -/
def healthyKeys (keys : List PooledKey) (cooldowns : Cooldowns) (model : Str) (now : ℚ) : List PooledKey :=
  keys.filter fun key => (active cooldowns key model now).isEmpty

/-- Every active cooldown of the key is a throttle, and there is one. -/
def isThrottled (cooldowns : Cooldowns) (model : Str) (now : ℚ) (key : PooledKey) : Bool :=
  !(active cooldowns key model now).isEmpty &&
    (active cooldowns key model now).all fun c => decide (c.class_ = .rateLimited)

/-- Keys to try for this model, in the order to try them. -/
def candidates (keys : List PooledKey) (cooldowns : Cooldowns) (model : Str) (now : ℚ) : List PooledKey :=
  let healthy := healthyKeys keys cooldowns model now
  if healthy ≠ [] then healthy
  else
    (keys.filter (isThrottled cooldowns model now)).mergeSort fun a b =>
      decide (latestEnd (active cooldowns a model now) ≤ latestEnd (active cooldowns b model now))

/-- `unavailability`, as far as a call decides on it: every key is out because it was rejected. -/
def onlyInvalid (keys : List PooledKey) (cooldowns : Cooldowns) (model : Str) (now : ℚ) : Bool :=
  keys.all fun key =>
    !(active cooldowns key model now).isEmpty &&
      (active cooldowns key model now).all fun c => decide (c.class_ = .invalid)

/-- `KeyPools.succeeded` -/
def succeeded (cooldowns : Cooldowns) (key : PooledKey) (model : Str) : Cooldowns :=
  Function.update (Function.update cooldowns (slot key WHOLE_KEY) none) (slot key model) none

/-- The slot that a failure is recorded on. -/
def failureSlot (key : PooledKey) (model : Str) (failure : KeyFailure) : Str :=
  slot key (if failure.scope = .key then WHOLE_KEY else model)

/-- How many failures of the class in a row the slot has with this one. -/
def strikesOf (previous : Option Cooldown) (failure : KeyFailure) : Nat :=
  match previous with
  | some previous => if previous.class_ = failure.class_ then previous.strikes + 1 else 1
  | none => 1

/-- `KeyPools.failed` -/
def failed (cooldowns : Cooldowns) (key : PooledKey) (model : Str) (failure : KeyFailure) (now : ℚ) : Cooldowns :=
  let at_ := failureSlot key model failure
  let strikes := strikesOf (cooldowns at_) failure
  Function.update cooldowns at_
    (some { class_ := failure.class_, until_ := now + cooldownMs failure strikes, strikes, at_ := now })

/-- How the slots start that are reset. -/
def resetStart (providerId : Str) : Option Str → Str
  | some keyId => if keyId = [] then providerId ++ ['\x00'] else providerId ++ '\x00' :: (keyId ++ ['\x00'])
  | none => providerId ++ ['\x00']

/-- `KeyPools.reset`, for a provider that the catalog has. -/
def reset (cooldowns : Cooldowns) (providerId : Str) (keyId : Option Str) : Cooldowns := fun slot =>
  if (resetStart providerId keyId).isPrefixOf slot then none else cooldowns slot

/-! ## Calls -/

/-- The route that was picked. -/
structure PickedRoute where
  backendId : Str
  provider : Str
  upstreamModel : Str
  deriving DecidableEq, Repr

/-- What a call is made with. -/
structure UpstreamCall where
  failover : Bool
  routeCount : Nat
  pick : Nat → Option PickedRoute

/-- Keys tried on one route before giving up on it. -/
def MAX_KEYS_PER_ROUTE : Nat := 3

/-- How a call ends. -/
inductive Outcome where
  | success
  /-- The answer is the caller's own error. -/
  | callerError
  | failure
  /-- The body of an answer broke off. -/
  | threw
  deriving DecidableEq, Repr

/-- Where a call is. -/
inductive Phase where
  /-- At the top of the loop over the routes. -/
  | top (attempt : Nat)
  /-- The request with a key is on the way; these keys are left. -/
  | fetching (attempt : Nat) (route : PickedRoute) (key : PooledKey) (rest : List PooledKey)
  /-- The body of an error is being read. -/
  | reading (attempt : Nat) (route : PickedRoute) (key : PooledKey) (rest : List PooledKey) (status : Nat)
      (retryAfter : Option Str)
  | done (outcome : Outcome)
  deriving DecidableEq, Repr

/-- What a call found when it began a route, and the keys it has tried there, for the record. -/
structure RouteTry where
  route : PickedRoute
  keys : List PooledKey
  cooldowns : Cooldowns
  now : ℚ
  tried : List PooledKey := []

/-- One run of `callUpstream`. -/
structure Run where
  call : UpstreamCall
  phase : Phase := .top 0
  aborted : Bool := false
  tries : List RouteTry := []

/-- The pools and the calls. -/
structure Gateway where
  clock : ℚ
  /-- The keys of each provider. -/
  keys : Str → List PooledKey
  cooldowns : Cooldowns := fun _ => none
  runs : List Run := []

/-- The answer to a request. -/
inductive FetchAnswer where
  | unreachable
  | ok
  | error (status : Nat) (retryAfter : Option Str)
  deriving DecidableEq, Repr

/-- What happens next. -/
inductive GatewayInput where
  | advanceClock (ms : Nat)
  | reset (providerId : Str) (keyId : Option Str)
  | start (call : UpstreamCall)
  | abort (run : Nat)
  /-- A run is at the top of its loop. -/
  | turn (run : Nat)
  | fetched (run : Nat) (answer : FetchAnswer)
  /-- The body of an error was read, or broke off. -/
  | body (run : Nat) (text : Option Str)

/-- The system with a run in another state. -/
def Gateway.setRun (s : Gateway) (i : Nat) (run : Run) : Gateway := { s with runs := s.runs.set i run }

/-- The end of a route: a failover goes on to the next one if it should. -/
def Run.afterRoute (run : Run) (attempt : Nat) (next : Bool) : Run :=
  { run with phase := if run.call.failover && next then .top (attempt + 1) else .done .failure }

/-- A note of a key that is tried on the last route. -/
def noteTried (key : PooledKey) : List RouteTry → List RouteTry
  | [] => []
  | [last] => [{ last with tried := last.tried ++ [key] }]
  | first :: rest => first :: noteTried key rest

/-- The loop over the keys of a route, up to its next request. -/
def Run.tryKeys (run : Run) (attempt : Nat) (route : PickedRoute) (keys : List PooledKey) (next : Bool) : Run :=
  match keys with
  | [] => run.afterRoute attempt next
  | key :: rest =>
    if run.aborted then run.afterRoute attempt next
    else { run with phase := .fetching attempt route key rest, tries := noteTried key run.tries }

/-- A run begins a route. -/
def Gateway.beginRoute (s : Gateway) (run : Run) (attempt : Nat) (route : PickedRoute) : Run :=
  let pool := s.keys route.provider
  let keys := candidates pool s.cooldowns route.upstreamModel s.clock
  let begun : Run := { run with
    tries := run.tries ++ [{ route, keys := pool, cooldowns := s.cooldowns, now := s.clock }] }
  if keys = [] then
    begun.afterRoute attempt (!onlyInvalid pool s.cooldowns route.upstreamModel s.clock)
  else begun.tryKeys attempt route (keys.take MAX_KEYS_PER_ROUTE) false

/-- One step of the system. -/
def gatewayStep (numbers : Numbers) (s : Gateway) : GatewayInput → Gateway
  | .advanceClock ms => { s with clock := s.clock + ms }
  | .reset providerId keyId => { s with cooldowns := reset s.cooldowns providerId keyId }
  | .start call => { s with runs := s.runs ++ [{ call }] }
  | .abort i =>
    match s.runs[i]? with
    | some run => s.setRun i { run with aborted := true }
    | none => s
  | .turn i =>
    match s.runs[i]? with
    | some run =>
      match run.phase with
      | .top attempt =>
        if attempt < run.call.routeCount ∧ run.aborted = false then
          match run.call.pick attempt with
          | some route => s.setRun i (s.beginRoute run attempt route)
          | none => s.setRun i { run with phase := .done .failure }
        else s.setRun i { run with phase := .done .failure }
      | _ => s
    | none => s
  | .fetched i answer =>
    match s.runs[i]? with
    | some run =>
      match run.phase, answer with
      | .fetching attempt _ _ _, .unreachable => s.setRun i (run.afterRoute attempt true)
      | .fetching _ route key _, .ok =>
        { s.setRun i { run with phase := .done .success } with
          cooldowns := succeeded s.cooldowns key route.upstreamModel }
      | .fetching attempt route key rest, .error status retryAfter =>
        s.setRun i { run with phase := .reading attempt route key rest status retryAfter }
      | _, _ => s
    | none => s
  | .body i text =>
    match s.runs[i]? with
    | some run =>
      match run.phase, text with
      | .reading _ _ _ _ _ _, none => s.setRun i { run with phase := .done .threw }
      | .reading attempt route key rest status retryAfter, some text =>
        match classifyUpstream numbers s.clock status retryAfter text with
        | .caller => s.setRun i { run with phase := .done .callerError }
        | .route => s.setRun i (run.afterRoute attempt true)
        | .key failure =>
          let cooldowns := failed s.cooldowns key route.upstreamModel failure s.clock
          let next := !onlyInvalid (s.keys route.provider) cooldowns route.upstreamModel s.clock
          { s.setRun i (run.tryKeys attempt route rest next) with cooldowns }
      | _, _ => s
    | none => s

/-- The gateway over the keys of its providers, before any call. -/
def gatewayMachine (numbers : Numbers) (sha256Hex : Str → Str) (env : Str → Str) (clock : ℚ) :
    Machine Gateway GatewayInput where
  init := { clock, keys := fun providerId => pooledKeys sha256Hex providerId (env providerId) }
  step := gatewayStep numbers

end TeamClu.KeyPools
