import TeamClu.ForStd.Machine
import TeamClu.Native.PiTranslate

/-!
# The events of a pi session

`handle_event`, `on_agent_end`, `close_turn` and the replay of `backfill_and_close` of
`apps/daemon/src/runtime/pi_rpc/events.rs`, and what `do_prompt` and `AcpCommand::Cancel` do to the
route of a session.  A cancel and a crash are two steps each, with the lock on the routes released in
between: the request of the cancel, or the replay, and the close.  A prompt is up to three: it arms the
turn, and if its request fails it sends an error and then closes the turn itself.  The reply address of
the frames is left out.
-/

namespace TeamClu.Runtime

/-- Where a call of `do_prompt` is that has armed its turn. -/
inductive PromptPhase where
  /-- It waits for the answer of pi. -/
  | requesting
  /-- The request has failed, and the error is sent. -/
  | failed
  | done
  deriving DecidableEq

/-- `Route`, without its fixed fields and the reply address, and the calls of `do_prompt` for it. -/
structure Route where
  turnActive : Bool := false
  /-- Set when the client sends `AcpCommand::Cancel` for this session. -/
  userCancelRequested : Bool := false
  translate : TranslateState := {}
  /-- Leaf entry id after the last completed turn. -/
  lastEntryId : Option Str := none
  prompts : List PromptPhase := []

/-- `on_agent_end`. -/
def onAgentEnd (route : Route) (leafId : Option Str) (willRetry : Bool) : Route :=
  let route := { route with lastEntryId := leafId.or route.lastEntryId }
  if willRetry then { route with translate := route.translate.discardTurnError } else route

/-- `close_turn`. -/
def closeTurn (route : Route) : Route × List AcpEvent :=
  if !route.turnActive then (route, [])
  else if route.userCancelRequested then
    ({ route with
        turnActive := false
        userCancelRequested := false
        translate := route.translate.discardTurnError },
      [abortedTurnError ABORTED_ERROR_DETAILS, .statusChange .active .idle])
  else
    let (translate, failure) := route.translate.takeTurnError
    ({ route with turnActive := false, translate }, failure ++ [.statusChange .active .idle])

/-- `handle_event`. -/
def handleEvent (route : Route) (event : PiEvent) : Route × List AcpEvent :=
  match event with
  | .agentStart =>
    ({ route with
        userCancelRequested := false
        translate := route.translate.resetTurn
        turnActive := true }, [])
  | .agentEnd leafId willRetry => (onAgentEnd route leafId willRetry, [])
  | .agentSettled => closeTurn route
  | event =>
    let (translate, events) := translateEvent route.translate event
    ({ route with translate }, events)

/-- What happens to a session. -/
inductive RouteStep where
  /-- `do_prompt`, up to its request. -/
  | prompt
  /-- pi accepts the prompt of a call. -/
  | promptAccepted (call : Nat)
  /-- The request of a call fails, and it sends its error. -/
  | promptFailed (call : Nat) (details : Str)
  /-- A call whose request has failed closes the turn. -/
  | promptClosed (call : Nat)
  | event (event : PiEvent)
  /-- `AcpCommand::Cancel`, up to the answer of pi. -/
  | cancel
  /-- `close_turn`, at the end of a cancel or for a child that died. -/
  | close
  /-- The replay of `try_backfill` for a child that died. -/
  | backfill (entries : List Entry)
  deriving DecidableEq

/-- The calls of `do_prompt` when one of them comes from one phase to another, if it is in that phase. -/
def movePrompt (prompts : List PromptPhase) (call : Nat) (before after : PromptPhase) :
    Option (List PromptPhase) :=
  if prompts[call]? = some before then some (prompts.set call after) else none

/-- The error of a prompt that pi did not accept. -/
def promptError (details : Str) : AcpEvent := .error { message := "pi prompt failed".toList, details }

/-- A step of the session and the frames that it sends. -/
def routeStep (route : Route) (step : RouteStep) : Route × List AcpEvent :=
  match step with
  | .prompt =>
    ({ route with turnActive := true, prompts := route.prompts ++ [.requesting] },
      if route.turnActive then [] else [.statusChange .idle .active])
  | .promptAccepted call =>
    match movePrompt route.prompts call .requesting .done with
    | some prompts => ({ route with prompts }, [])
    | none => (route, [])
  | .promptFailed call details =>
    match movePrompt route.prompts call .requesting .failed with
    | some prompts => ({ route with prompts }, [promptError details])
    | none => (route, [])
  | .promptClosed call =>
    -- Neither `close_turn` nor a look at `turn_active` stands before this.
    match movePrompt route.prompts call .failed .done with
    | some prompts => ({ route with turnActive := false, prompts }, [.statusChange .active .idle])
    | none => (route, [])
  | .event event => handleEvent route event
  | .cancel => ({ route with userCancelRequested := true }, [])
  | .close => closeTurn route
  | .backfill entries =>
    let (translate, events) := replayEntries route.translate entries
    ({ route with translate }, events)

end TeamClu.Runtime
