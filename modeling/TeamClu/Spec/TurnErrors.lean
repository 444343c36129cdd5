import TeamClu.Native.PiEvents
import TeamClu.Spec.StreamedText

/-!
# Failed runs are reported

What a session owes its client is read off its events alone (`Watch`): the turn that is open and
whether the user cancelled it, the run under way and the turn it began in, the failures that no
retry took back, and the prompts that wait for pi.  Every step keeps to it (`Honest`) as long as the
one error that the route holds is not replaced, dropped or carried into another turn, and a prompt that
fails closes only a turn that is still open and owes nothing (`Safe`, `failed_run_reported`).
-/

namespace TeamClu.Runtime

/-! ## Ends of messages -/

/-- How an assistant message ended. -/
inductive Ending where
  | failed (details : Str)
  | aborted (details : Str)
  | ordinary
  deriving DecidableEq

/-- How the assistant message ended, if the event is the end of one. -/
def PiEvent.ending : PiEvent → Option Ending
  | .messageEnd role stopReason errorMessage =>
    let details := errorMessage.filter (· ≠ [])
    if role ≠ "assistant".toList then none
    else if stopReason = "error".toList then
      if isAbortLikeDetail (details.getD []) then
        some (.aborted (if details.getD [] = [] then ABORTED_ERROR_DETAILS else details.getD []))
      else some (.failed (details.getD []))
    else if stopReason = "aborted".toList then
      some (.aborted (details.getD ABORTED_ERROR_DETAILS))
    else some .ordinary
  | _ => none

/-- The error of a failed run. -/
def providerError (details : Str) : AcpEvent := .error { message := PROVIDER_ERROR_MESSAGE, details }

/-- The change that closes a turn. -/
abbrev activeToIdle : AcpEvent := .statusChange .active .idle

/-- What an end does to the translation: a failure is held, an abort is sent. -/
def Ending.translate (ending : Ending) (st : TranslateState) : TranslateState × List AcpEvent :=
  match ending with
  | .failed details => (st.stashTurnError PROVIDER_ERROR_MESSAGE details, [])
  | .aborted details => (st, [abortedTurnError details])
  | .ordinary => (st, [])

theorem translateEvent_ending {event : PiEvent} {ending : Ending} (h : event.ending = some ending)
    (st : TranslateState) : translateEvent st event = ending.translate st := by
  cases event with
  | messageEnd role stopReason errorMessage =>
    simp only [PiEvent.ending] at h
    simp only [translateEvent, onMessageEnd]
    split at h
    · cases h
    next hrole =>
    rw [if_pos (not_not.mp hrole)]
    split at h
    · next hstop =>
      rw [if_pos hstop]
      split at h <;> next habort => cases h; simp only [habort]; rfl
    next hstop =>
    rw [if_neg hstop]
    split at h <;> next habort => cases h; simp only [habort]; rfl
  | _ => cases h

/-! ## What is owed -/

/-- What the client of a session can expect. -/
structure Watch where
  /-- A turn is open. -/
  armed : Bool := false
  /-- The user cancelled it. -/
  cancelled : Bool := false
  /-- A cancel outside a turn was not followed by a run yet. -/
  strayCancel : Bool := false
  /-- The run under way, and whether it began in the open turn. -/
  run : Option Bool := none
  /-- The failures of the run under way in the open turn. -/
  failed : List Str := []
  /-- Its last assistant message failed. -/
  last : Option Str := none
  /-- It was aborted, or its turn was closed after a failure. -/
  broke : Bool := false
  /-- The failures of the runs of the open turn that ended and are not retried. -/
  ended : List Str := []
  /-- Those whose last assistant message failed. -/
  owed : List Str := []
  /-- The last failure is of no run of the open turn. -/
  strayFailure : Bool := false
  /-- The calls of `do_prompt`. -/
  prompts : List PromptPhase := []
  /-- Those of the open turn. -/
  mine : List Nat := []
  deriving DecidableEq

namespace Watch

/-- A message begins a run if none is under way. -/
def begun (w : Watch) : Watch :=
  if w.run = none then { w with run := some w.armed, failed := [], last := none, broke := false }
  else w

/-- A turn closes. -/
def closed (w : Watch) : Watch :=
  if w.armed then
    { run := w.run.map fun _ => false
      broke := w.broke || (!w.cancelled && w.run = some true && w.failed ≠ [])
      prompts := w.prompts }
  else w

/-- An assistant message ends. -/
def messageEnded (w : Watch) (ending : Ending) : Watch :=
  let w := w.begun
  match ending with
  | .failed details =>
    if w.run = some true then
      { w with failed := w.failed ++ [details], last := some details, strayFailure := false }
    else { w with strayFailure := true }
  | .aborted _ => { w with last := none, broke := true }
  | .ordinary => { w with last := none }

/-- A run ends. -/
def runEnded (w : Watch) (willRetry : Bool) : Watch :=
  if willRetry then
    { w with run := none, failed := [], last := none, broke := false, strayFailure := false }
  else if w.run = some true then
    { w with
      run := none, failed := [], last := none, broke := false
      ended := w.ended ++ w.failed, owed := w.owed ++ w.last.toList }
  else { w with run := none, failed := [], last := none, broke := false }

/-- A run begins, and with it a turn if none is open. -/
def runStarted (w : Watch) : Watch :=
  { w with
    armed := true, cancelled := false, strayCancel := false, run := some true, failed := []
    last := none, broke := false, strayFailure := false }

/-- What can be reported when the turn closes. -/
def known (w : Watch) : List Str := w.ended ++ if w.run = some true then w.failed else []

/-- A prompt that failed closes the turn: the route keeps its error and the request of a cancel. -/
def promptClosed (w : Watch) : Watch :=
  if w.armed then
    { run := w.run.map fun _ => false
      broke := w.broke
      strayCancel := w.cancelled || w.strayCancel
      strayFailure := w.strayFailure || w.known ≠ []
      prompts := w.prompts }
  else w

/-- One step. -/
def next (w : Watch) (step : RouteStep) : Watch :=
  match step with
  | .prompt => { w with armed := true, prompts := w.prompts ++ [.requesting], mine := w.mine ++ [w.prompts.length] }
  | .promptAccepted call => { w with prompts := (movePrompt w.prompts call .requesting .done).getD w.prompts }
  | .promptFailed call _ => { w with prompts := (movePrompt w.prompts call .requesting .failed).getD w.prompts }
  | .promptClosed call =>
    match movePrompt w.prompts call .failed .done with
    | some prompts => { w.promptClosed with prompts }
    | none => w
  | .cancel => if w.armed then { w with cancelled := true } else { w with strayCancel := true }
  | .close | .event .agentSettled => w.closed
  | .event .agentStart => w.runStarted
  | .event (.agentEnd _ willRetry) => w.runEnded willRetry
  | .event event =>
    match event.ending with
    | some ending => w.messageEnded ending
    | none => w
  | .backfill _ => w

/-- What has to be reported when the turn closes. -/
def due (w : Watch) : List Str := w.owed ++ if w.run = some true then w.last.toList else []

/-- The step closes the turn, or is a prompt's that means to. -/
def closes (w : Watch) (step : RouteStep) : Bool :=
  match step with
  | .close | .event .agentSettled => true
  | .promptClosed call => w.prompts[call]? = some .failed
  | _ => false

end Watch

/-! ## The observed session -/

/-- A route with its watch, and the errors that were sent for the run under way. -/
structure Session where
  route : Route := {}
  watch : Watch := {}
  said : List AcpEvent := []

/-- The event is an error. -/
def AcpEvent.isError : AcpEvent → Bool
  | .error _ => true
  | _ => false

/-- The step announces a retry. -/
def RouteStep.retries : RouteStep → Bool
  | .event (.agentEnd _ willRetry) => willRetry
  | _ => false

/-- How the step ends an assistant message, if it does. -/
def RouteStep.ending : RouteStep → Option Ending
  | .event e => e.ending
  | _ => none

/-- The errors that were sent for the run under way, after a step. -/
def Session.saidNext (s : Session) (step : RouteStep) (out : List AcpEvent) : List AcpEvent :=
  if s.watch.closes step then
    if s.watch.armed && s.watch.run = some true && !s.watch.cancelled then
      s.said ++ out.filter fun e => e ∈ s.watch.failed.map providerError
    else s.said
  else if step.ending ≠ none then
    (if s.watch.run = none then [] else s.said) ++ out.filter AcpEvent.isError
  else match step with
    | .event .agentStart | .event (.agentEnd _ _) => []
    | _ => s.said

/-- A session that is watched. -/
def session : Machine Session RouteStep where
  init := {}
  step s step :=
    { route := (routeStep s.route step).1
      watch := s.watch.next step
      said := s.saidNext step (routeStep s.route step).2 }

/-- The step may send an error outside a close: an extension failed, a prompt of the open turn failed, or an abort
    ended a message of it; or no turn is open. -/
def Watch.mayFail (w : Watch) (step : RouteStep) : Prop :=
  match step with
  | .event (.extensionError _) => True
  | .promptFailed call _ => w.armed → call ∈ w.mine
  | step => (∃ details, step.ending = some (.aborted details)) ∧ (w.armed → w.begun.run = some true)

/-- The frames of a close: an abort if the user cancelled the turn, else an error for every failure
    that is due and for none that the turn does not know; then the change to Idle. -/
def Watch.ClosesWith (w : Watch) (out : List AcpEvent) : Prop :=
  out.getLast? = some activeToIdle ∧
    (w.cancelled = true → out.dropLast = [abortedTurnError ABORTED_ERROR_DETAILS]) ∧
    (w.cancelled = false → (∀ d ∈ w.due, providerError d ∈ out.dropLast) ∧
      ∀ e ∈ out.dropLast, e ∈ w.known.map providerError)

/-- What the step sends is what the client can expect. -/
def Session.Honest (s : Session) (step : RouteStep) : Prop :=
  let out := (routeStep s.route step).2
  (s.watch.closes step = true → s.watch.armed = true → s.watch.ClosesWith out) ∧
    (s.watch.closes step = true → s.watch.armed = false → out = []) ∧
    (s.watch.closes step = false → activeToIdle ∉ out ∧ (out.any AcpEvent.isError → s.watch.mayFail step)) ∧
    (step.retries = true → s.said = [] ∧ out = [])

/-- The held error is not replaced, dropped or carried into another turn: no run begins and no
    message fails while the turn owes an error, no run begins in a cancelled turn, no turn closes on a
    cancel or a failure that is not its own, no message of an earlier turn aborts in it, and no run is
    retried that was aborted or reported.  No prompt of an earlier turn fails in it, and a prompt that
    failed finds its turn open, not cancelled and owing nothing. -/
def Watch.Safe (w : Watch) (step : RouteStep) : Prop :=
  match step with
  | .event .agentStart => w.armed = true → w.owed = [] ∧ w.cancelled = false
  | .event (.agentEnd _ true) => w.broke = false ∧ (w.cancelled = false → w.owed = [])
  | .close | .event .agentSettled =>
    w.armed = true → w.cancelled = false → w.strayCancel = false ∧ w.strayFailure = false
  | .promptFailed call _ => w.prompts[call]? = some .requesting → w.armed = true → call ∈ w.mine
  | .promptClosed call => w.prompts[call]? = some .failed → w.armed = true ∧ w.cancelled = false ∧ w.due = []
  | step =>
    match step.ending with
    | some (.failed _) => w.armed = true → w.cancelled = false → w.owed = []
    | some (.aborted _) => w.armed = true → w.begun.run = some true
    | _ => True

/-! ## The invariant -/

/-- The route holds what is due, and nothing but what the turn knows or what is stray. -/
structure Session.Inv (s : Session) : Prop where
  armed : s.route.turnActive = s.watch.armed
  flag : s.route.userCancelRequested = (s.watch.cancelled || s.watch.strayCancel)
  cancelled : s.watch.cancelled = true → s.watch.armed = true
  run : s.watch.run = some true → s.watch.armed = true
  idle : s.watch.armed = false → s.watch.owed = [] ∧ s.watch.ended = []
  known : ∀ p, s.route.translate.pendingTurnError = some p → p.1 = PROVIDER_ERROR_MESSAGE ∧
    (s.watch.strayFailure = true ∨ p.2 ∈ s.watch.known)
  due : s.watch.cancelled = false → ∀ d ∈ s.watch.due,
    s.route.translate.pendingTurnError = some (PROVIDER_ERROR_MESSAGE, d)
  said : s.watch.broke = false → s.said = []
  prompts : s.route.prompts = s.watch.prompts

theorem Session.inv_init : Session.Inv {} where
  armed := rfl
  flag := rfl
  cancelled := nofun
  run := nofun
  idle := fun _ => ⟨rfl, rfl⟩
  known := nofun
  due := by simp [Watch.due]
  said := fun _ => rfl
  prompts := rfl

namespace Session.Inv

variable {s : Session}

/-- What the watch says of a message that begins a run holds of it. -/
theorem begun (h : s.Inv) :
    Session.Inv { s with
      watch := s.watch.begun, said := if s.watch.run = none then [] else s.said } := by
  unfold Watch.begun
  split
  · next hrun =>
    refine ⟨h.armed, h.flag, h.cancelled, fun hours => Option.some.inj hours, h.idle, ?_, ?_,
      fun _ => rfl, h.prompts⟩
    · intro p hp
      refine ⟨(h.known p hp).1, (h.known p hp).2.imp_right fun hmem => ?_⟩
      simp only [Watch.known, hrun, reduceCtorEq, if_false, List.append_nil] at hmem
      exact List.mem_append_left _ hmem
    · intro hc d hd
      refine h.due hc d ?_
      simp only [Watch.due, Option.toList_none, ite_self, List.append_nil] at hd
      exact List.mem_append_left _ hd
  · exact ⟨h.armed, h.flag, h.cancelled, h.run, h.idle, h.known, h.due, h.said, h.prompts⟩

/-- The end of an assistant message keeps the invariant, unless it replaces an error that is owed. -/
theorem messageEnded (h : s.Inv) {ending : Ending}
    (hsafe : ∀ details, ending = .failed details → s.watch.armed = true →
      s.watch.cancelled = false → s.watch.owed = []) :
    Session.Inv {
      route := { s.route with translate := (ending.translate s.route.translate).1 }
      watch := s.watch.messageEnded ending
      said := (if s.watch.run = none then [] else s.said) ++
        (ending.translate s.route.translate).2.filter AcpEvent.isError } := by
  have hb := h.begun
  -- the start of a message changes none of the three
  have harmed : s.watch.begun.armed = s.watch.armed ∧ s.watch.begun.cancelled = s.watch.cancelled ∧
      s.watch.begun.owed = s.watch.owed := by
    unfold Watch.begun
    split <;> exact ⟨rfl, rfl, rfl⟩
  rw [← harmed.1, ← harmed.2.1, ← harmed.2.2] at hsafe
  unfold Watch.messageEnded
  generalize s.watch.begun = w at hb hsafe ⊢
  generalize (if s.watch.run = none then [] else s.said) = said at hb ⊢
  cases ending with
  | failed details =>
    rw [Ending.translate, List.filter_nil, List.append_nil]
    -- before the failure nothing else is owed
    have howed : w.cancelled = false → w.owed = [] := fun hc => by
      cases harm : w.armed with
      | true => exact hsafe details rfl harm hc
      | false => exact (hb.idle harm).1
    dsimp only
    split
    · next hrun =>
      -- in a run the new error is owed, and held
      refine ⟨hb.armed, hb.flag, hb.cancelled, hb.run, hb.idle, ?_, ?_, hb.said, hb.prompts⟩
      · rintro p ⟨⟩
        refine ⟨rfl, Or.inr ?_⟩
        simp [Watch.known, hrun]
      · intro hc d hd
        simp only [Watch.due, howed hc, hrun, if_true, List.nil_append, Option.toList_some,
          List.mem_singleton] at hd
        rw [hd]
        rfl
    · next hrun =>
      -- outside a run it is held and known only
      refine ⟨hb.armed, hb.flag, hb.cancelled, hb.run, hb.idle, ?_, ?_, hb.said, hb.prompts⟩
      · rintro p ⟨⟩
        exact ⟨rfl, Or.inl rfl⟩
      · intro hc d hd
        simp [Watch.due, howed hc, hrun] at hd
  | aborted details =>
    -- an abort clears what is held, but it is said at once
    refine ⟨hb.armed, hb.flag, hb.cancelled, hb.run, hb.idle, hb.known, ?_, nofun, hb.prompts⟩
    intro hc d hd
    refine hb.due hc d ?_
    simp only [Watch.due, Option.toList_none, ite_self, List.append_nil] at hd
    exact List.mem_append_left _ hd
  | ordinary =>
    rw [Ending.translate, List.filter_nil, List.append_nil]
    -- an ordinary end takes nothing back and owes nothing
    refine ⟨hb.armed, hb.flag, hb.cancelled, hb.run, hb.idle, hb.known, ?_, hb.said, hb.prompts⟩
    intro hc d hd
    refine hb.due hc d ?_
    simp only [Watch.due, Option.toList_none, ite_self, List.append_nil] at hd
    exact List.mem_append_left _ hd

/-- The end of a run keeps the invariant, unless a retry drops an error that is owed. -/
theorem runEnded (h : s.Inv) (leafId : Option Str) {willRetry : Bool}
    (hsafe : willRetry = true → s.watch.cancelled = false → s.watch.owed = []) :
    Session.Inv {
      route := onAgentEnd s.route leafId willRetry
      watch := s.watch.runEnded willRetry
      said := [] } := by
  cases willRetry with
  | true =>
    -- a retry forgets the run: nothing may be owed then
    refine ⟨h.armed, h.flag, h.cancelled, nofun, h.idle, nofun, ?_, fun _ => rfl, h.prompts⟩
    intro hc d hd
    simp [Watch.due, Watch.runEnded, hsafe rfl hc] at hd
  | false =>
    simp only [Watch.runEnded, Bool.false_eq_true, if_false]
    split
    · next hrun =>
      -- the run's failures are due from now on
      refine ⟨h.armed, h.flag, h.cancelled, nofun, ?_, ?_, ?_, fun _ => rfl, h.prompts⟩
      · intro harm
        cases harm.symm.trans (h.run hrun)
      · intro p hp
        refine ⟨(h.known p hp).1, (h.known p hp).2.imp_right fun hmem => ?_⟩
        simpa [Watch.known, hrun] using hmem
      · intro hc d hd
        refine h.due hc d ?_
        simpa [Watch.due, hrun] using hd
    · next hrun =>
      -- no run is under way, so there is nothing to settle
      refine ⟨h.armed, h.flag, h.cancelled, nofun, h.idle, ?_, ?_, fun _ => rfl, h.prompts⟩
      · intro p hp
        refine ⟨(h.known p hp).1, (h.known p hp).2.imp_right fun hmem => ?_⟩
        simpa [Watch.known, hrun] using hmem
      · intro hc d hd
        refine h.due hc d ?_
        simpa [Watch.due, hrun] using hd

/-- A run that begins keeps the invariant, unless the turn owes an error. -/
theorem runStarted (h : s.Inv) (hsafe : s.watch.armed = true → s.watch.owed = []) :
    Session.Inv {
      route := (handleEvent s.route .agentStart).1
      watch := s.watch.runStarted
      said := [] } := by
  have howed : s.watch.owed = [] := by
    cases harm : s.watch.armed with
    | true => exact hsafe harm
    | false => exact (h.idle harm).1
  refine ⟨rfl, rfl, nofun, fun _ => rfl, nofun, nofun, ?_, fun _ => rfl, h.prompts⟩
  intro _ d hd
  simp [Watch.due, Watch.runStarted, howed] at hd

/-- A close keeps the invariant. -/
theorem closed (h : s.Inv) {errors : List AcpEvent}
    (hsaid : s.watch.armed = true → (s.watch.closed).broke = false → errors = [])
    (hidle : s.watch.armed = false → errors = s.said) :
    Session.Inv { route := (closeTurn s.route).1, watch := s.watch.closed, said := errors } := by
  unfold closeTurn Watch.closed at *
  rw [h.armed]
  cases harm : s.watch.armed with
  | false =>
    -- an idle session is not changed
    rw [hidle harm]
    simpa using h
  | true =>
    have hsaid := hsaid harm
    rw [harm, if_pos rfl] at hsaid
    simp only [Bool.not_true, Bool.false_eq_true, if_false, if_true]
    have hflag := h.flag
    split
    · -- a cancelled turn is closed without an error
      exact ⟨rfl, rfl, nofun, by simp, fun _ => ⟨rfl, rfl⟩, nofun, by simp [Watch.due], hsaid, h.prompts⟩
    · next hcancel =>
      -- the others leave nothing held, known or due
      exact ⟨rfl, by simpa using hcancel, nofun, by simp, fun _ => ⟨rfl, rfl⟩, nofun,
        by simp [Watch.due], hsaid, h.prompts⟩

/-- A prompt that failed closes the turn, or the session is idle already. -/
theorem promptClosed (h : s.Inv) {prompts : List PromptPhase} :
    Session.Inv {
      route := { s.route with turnActive := false, prompts }
      watch := { s.watch.promptClosed with prompts }
      said := s.said } := by
  unfold Watch.promptClosed
  split
  · refine ⟨rfl, ?_, nofun, by simp, fun _ => ⟨rfl, rfl⟩, fun p hp => ?_, by simp [Watch.due], h.said, rfl⟩
    · simpa using h.flag
    · -- what is still held is stray from now on
      refine ⟨(h.known p hp).1, Or.inl ?_⟩
      rcases (h.known p hp).2 with hstray | hmem
      · simp [hstray]
      · simp [List.ne_nil_of_mem hmem]
  · next harm =>
    have harm : s.watch.armed = false := by simpa using harm
    exact ⟨harm.symm, h.flag, h.cancelled, h.run, h.idle, h.known, h.due, h.said, rfl⟩

/-- A call of `do_prompt` goes on. -/
theorem prompts_moved (h : s.Inv) {prompts : List PromptPhase} :
    Session.Inv { s with route := { s.route with prompts }, watch := { s.watch with prompts } } :=
  ⟨h.armed, h.flag, h.cancelled, h.run, h.idle, h.known, h.due, h.said, rfl⟩

/-- A step that leaves the held error alone keeps the invariant. -/
theorem passes (h : s.Inv) {translate : TranslateState}
    (hheld : translate.pendingTurnError = s.route.translate.pendingTurnError) :
    Session.Inv { s with route := { s.route with translate } } :=
  ⟨h.armed, h.flag, h.cancelled, h.run, h.idle, fun p hp => h.known p (hheld ▸ hp),
    fun hc d hd => hheld.trans (h.due hc d hd), h.said, h.prompts⟩

end Session.Inv

/-! ## What is sent -/

/-- The event neither is an error nor changes the status. -/
def AcpEvent.isPlain : AcpEvent → Bool
  | .error _ | .statusChange _ _ => false
  | _ => true

theorem AcpEvent.isPlain_textEvent (kind : BlockKind) (text : Str) :
    (textEvent kind text).isPlain = true := by
  cases kind <;> rfl

/-- Steps that leave the held error alone and send plain events. -/
theorem emitAll_plain {α : Type} {step : TranslateState → α → TranslateState × List AcpEvent}
    (h : ∀ st x, (step st x).1.pendingTurnError = st.pendingTurnError ∧
      ∀ e ∈ (step st x).2, e.isPlain = true) (st : TranslateState) (xs : List α) :
    (emitAll step st xs).1.pendingTurnError = st.pendingTurnError ∧
      ∀ e ∈ (emitAll step st xs).2, e.isPlain = true := by
  induction xs using List.reverseRecOn with
  | nil => exact ⟨rfl, fun _ he => absurd he List.not_mem_nil⟩
  | append_singleton xs x ih =>
    obtain ⟨hheld, hplain⟩ := h (emitAll step st xs).1 x
    rw [emitAll_concat]
    refine ⟨hheld.trans ih.1, fun e he => ?_⟩
    rcases List.mem_append.mp he with he | he
    · exact ih.2 e he
    · exact hplain e he

theorem onBlockEnd_plain (st : TranslateState) (kind : BlockKind) (index : Int) (content : Str) :
    (onBlockEnd st kind index content).1.pendingTurnError = st.pendingTurnError ∧
      ∀ e ∈ (onBlockEnd st kind index content).2, e.isPlain = true := by
  unfold onBlockEnd
  split
  · exact ⟨rfl, by simp [AcpEvent.isPlain_textEvent]⟩
  · exact ⟨rfl, by simp⟩

theorem onDelta_plain (st : TranslateState) (kind : BlockKind) (index : Int) (delta : Str) :
    (onDelta st kind index delta).1.pendingTurnError = st.pendingTurnError ∧
      ∀ e ∈ (onDelta st kind index delta).2, e.isPlain = true := by
  unfold onDelta
  split
  · exact ⟨rfl, by simp⟩
  · exact ⟨rfl, by simp [AcpEvent.isPlain_textEvent]⟩

theorem replayEntry_plain (st : TranslateState) (entry : Entry) :
    (replayEntry st entry).1.pendingTurnError = st.pendingTurnError ∧
      ∀ e ∈ (replayEntry st entry).2, e.isPlain = true := by
  cases entry with
  | assistant content =>
    refine emitAll_plain (fun st b => ?_) st content.zipIdx
    obtain ⟨block, index⟩ := b
    cases block with
    | text text => exact onBlockEnd_plain st .text index text
    | thinking thinking => exact onBlockEnd_plain st .thinking index thinking
    | other => exact ⟨rfl, by simp [replayBlock]⟩
  | toolResult toolId isError summary message =>
    rw [replayEntry]
    split
    · exact ⟨rfl, by simp⟩
    · exact ⟨rfl, by simp [AcpEvent.isPlain]⟩
  | other => exact ⟨rfl, by simp [replayEntry]⟩

/-- The replay leaves the held error alone and sends plain events. -/
theorem replayEntries_plain (st : TranslateState) (entries : List Entry) :
    (replayEntries st entries).1.pendingTurnError = st.pendingTurnError ∧
      ∀ e ∈ (replayEntries st entries).2, e.isPlain = true :=
  emitAll_plain replayEntry_plain st entries

/-- An event that ends no assistant message leaves the held error alone, and sends plain events
    unless an extension failed. -/
theorem translateEvent_plain {event : PiEvent} (h : event.ending = none) (st : TranslateState) :
    (translateEvent st event).1.pendingTurnError = st.pendingTurnError ∧
      ∀ e ∈ (translateEvent st event).2, e.isPlain = true ∨
        ∃ details, event = .extensionError details ∧ e.isError = true := by
  cases event with
  | delta kind index delta =>
    exact ⟨(onDelta_plain st kind index delta).1,
      fun e he => Or.inl ((onDelta_plain st kind index delta).2 e he)⟩
  | blockEnd kind index content =>
    exact ⟨(onBlockEnd_plain st kind index content).1,
      fun e he => Or.inl ((onBlockEnd_plain st kind index content).2 e he)⟩
  | messageEnd role stopReason errorMessage =>
    -- only an assistant's message has an ending
    have hrole : role ≠ "assistant".toList := by
      intro hrole
      simp only [PiEvent.ending, hrole, ne_eq, not_true_eq_false, if_false] at h
      (repeat' split at h) <;> cases h
    rw [translateEvent, if_neg hrole]
    exact ⟨rfl, by simp⟩
  | extensionError details =>
    exact ⟨rfl, fun e he => Or.inr ⟨details, rfl, by rw [List.mem_singleton.mp he]; rfl⟩⟩
  | toolExecutionStart => exact ⟨rfl, by simp [translateEvent, AcpEvent.isPlain]⟩
  | toolExecutionEnd => exact ⟨rfl, by simp [translateEvent, AcpEvent.isPlain]⟩
  | _ => exact ⟨rfl, by simp [translateEvent]⟩

/-- The frames of a close are those that the client can expect. -/
theorem Session.Inv.closesWith {s : Session} (h : s.Inv) (harm : s.watch.armed = true)
    (hsafe : s.watch.cancelled = false →
      s.watch.strayCancel = false ∧ s.watch.strayFailure = false) :
    s.watch.ClosesWith (closeTurn s.route).2 := by
  have hflag := h.flag
  unfold closeTurn
  rw [h.armed, harm]
  simp only [Bool.not_true, Bool.false_eq_true, if_false]
  cases hc : s.watch.cancelled with
  -- a cancelled turn reports that it was cancelled, and no failure
  | true =>
    rw [hflag, hc]
    exact ⟨rfl, fun _ => rfl, by simp [hc]⟩
  | false =>
    -- neither a stray cancel nor a stray failure is at work
    obtain ⟨hcancel, hstray⟩ := hsafe hc
    rw [hflag, hc, hcancel]
    simp only [Bool.or_self, Bool.false_eq_true, if_false, TranslateState.takeTurnError]
    refine ⟨List.getLast?_concat, by simp [hc], fun _ => ?_⟩
    rw [List.dropLast_concat]
    constructor
    · -- every failure that is due is the one that is held
      intro d hd
      rw [h.due hc d hd]
      exact List.mem_singleton.mpr rfl
    · -- and what is held was one of the failures of the turn
      intro e he
      cases hheld : s.route.translate.pendingTurnError with
      | none => simp [hheld] at he
      | some p =>
        obtain ⟨hmessage, hknown⟩ := h.known p hheld
        rw [hheld] at he
        simp only [Option.map_some, Option.toList_some, List.mem_singleton] at he
        rw [he, hmessage]
        exact List.mem_map.mpr ⟨p.2, hknown.resolve_left (by simp [hstray]), rfl⟩

/-! ## Steps and runs -/

/-- A close keeps the invariant, whatever it is that closes. -/
private theorem inv_close {s : Session} (h : s.Inv) {step : RouteStep} (hcloses : s.watch.closes step = true)
    (out : List AcpEvent) :
    Session.Inv {
      route := (closeTurn s.route).1, watch := s.watch.closed, said := s.saidNext step out } := by
  unfold Session.saidNext
  rw [if_pos hcloses]
  apply h.closed
  · intro harm hbroke
    rw [Watch.closed, if_pos harm, Bool.or_eq_false_iff] at hbroke
    rw [h.said hbroke.1]
    split
    · next hrun =>
      simp only [Bool.and_eq_true, decide_eq_true_eq, Bool.not_eq_true'] at hrun
      have hfailed : s.watch.failed = [] := by simpa [hrun] using hbroke.2
      simp [hfailed]
    · rfl
  · intro harm
    simp [harm]

/-- An event that ends an assistant message is none of the others. -/
private theorem handleEvent_ending {event : PiEvent} {ending : Ending} (h : event.ending = some ending)
    (s : Session) :
    handleEvent s.route event =
        ({ s.route with translate := (ending.translate s.route.translate).1 },
          (ending.translate s.route.translate).2) ∧
      s.watch.next (.event event) = s.watch.messageEnded ending ∧
      (∀ out, s.saidNext (.event event) out =
        (if s.watch.run = none then [] else s.said) ++ out.filter AcpEvent.isError) ∧
      (s.watch.Safe (.event event) ↔ match ending with
        | .failed _ => s.watch.armed = true → s.watch.cancelled = false → s.watch.owed = []
        | .aborted _ => s.watch.armed = true → s.watch.begun.run = some true
        | .ordinary => True) := by
  cases event with
  | messageEnd role stopReason errorMessage =>
    refine ⟨?_, ?_, fun out => ?_, ?_⟩
    · -- an ending changes the translator alone
      rw [handleEvent, translateEvent_ending h]
      all_goals simp
    · simp only [Watch.next, h]
    · simp [Session.saidNext, Watch.closes, RouteStep.ending, h]
    · simp only [Watch.Safe, RouteStep.ending, h]
      cases ending <;> rfl
  | _ => cases h

/-- A prompt that closes the turn reports no failure of the run. -/
private theorem saidNext_promptClosed (s : Session) (call : Nat) :
    s.saidNext (.promptClosed call) [activeToIdle] = s.said := by
  unfold Session.saidNext
  split
  · split
    · simp [providerError]
    · rfl
  · rfl

/-- Every safe step keeps the invariant. -/
theorem inv_step (s : Session) (step : RouteStep) (h : s.Inv) (hsafe : s.watch.Safe step) :
    (session.step s step).Inv := by
  cases step with
  | prompt =>
    -- a prompt arms the session
    exact ⟨rfl, h.flag, fun _ => rfl, fun _ => rfl, fun hidle => (by cases hidle), h.known, h.due, h.said,
      congrArg (· ++ [PromptPhase.requesting]) h.prompts⟩
  | promptAccepted call =>
    simp only [session, routeStep, Watch.next, ← h.prompts]
    split
    · next hsome =>
      rw [hsome, Option.getD_some]
      exact h.prompts_moved
    · next hnone =>
      rw [hnone, Option.getD_none]
      exact h.prompts_moved
  | promptFailed call details =>
    simp only [session, routeStep, Watch.next, ← h.prompts]
    split
    · next hsome =>
      rw [hsome, Option.getD_some]
      exact h.prompts_moved
    · next hnone =>
      rw [hnone, Option.getD_none]
      exact h.prompts_moved
  | promptClosed call =>
    cases hmove : movePrompt s.watch.prompts call .failed .done with
    | none =>
      have hnot : s.watch.closes (.promptClosed call) = false := by simpa [movePrompt, Watch.closes] using hmove
      simp only [session, routeStep, Watch.next, h.prompts, hmove, Session.saidNext, hnot]
      exact h
    | some prompts =>
      simp only [session, routeStep, Watch.next, h.prompts, hmove]
      rw [saidNext_promptClosed]
      exact h.promptClosed
  | cancel =>
    simp only [session, routeStep, Watch.next]
    split
    · -- a cancel of an armed turn discharges what was due
      next harm =>
      exact ⟨h.armed, rfl, fun _ => harm, h.run, h.idle, h.known, fun hopen => (by cases hopen), h.said,
        h.prompts⟩
    · -- a cancel between turns sets no flag of the route
      exact ⟨h.armed, (Bool.or_true _).symm, h.cancelled, h.run, h.idle, h.known, h.due, h.said, h.prompts⟩
  | close => exact inv_close h rfl _
  -- the replay has no errors
  | backfill entries => exact h.passes (replayEntries_plain s.route.translate entries).1
  | event event =>
    cases hend : event.ending with
    -- a message ended: what is safe to end with is what the step's own condition asks for
    | some ending =>
      obtain ⟨hhandle, hnext, hsaid, hiff⟩ := handleEvent_ending hend s
      simp only [session, routeStep, hhandle, hnext, hsaid]
      refine h.messageEnded fun details hfailed => ?_
      subst hfailed
      exact hiff.mp hsafe
    | none =>
      have hpass := h.passes (translateEvent_plain hend s.route.translate).1
      -- of the other events, only the start and the end of a run and the settling count here
      cases event with
      | agentStart => exact h.runStarted fun harm => (hsafe harm).1
      | agentEnd leafId willRetry =>
        refine h.runEnded leafId fun hretry => ?_
        subst hretry
        exact hsafe.2
      | agentSettled => exact inv_close h rfl _
      | messageEnd role stopReason errorMessage =>
        simp only [session, routeStep, Watch.next, hend, Session.saidNext, Watch.closes,
          RouteStep.ending]
        exact hpass
      | _ => exact hpass

/-- A step that sends plain events, or the error of an extension, is honest. -/
private theorem honest_plain {s : Session} {step : RouteStep} (hcloses : s.watch.closes step = false)
    (hretries : step.retries = false)
    (hout : ∀ e ∈ (routeStep s.route step).2, e.isPlain = true ∨
      ∃ details, step = .event (.extensionError details) ∧ e.isError = true) :
    s.Honest step := by
  refine ⟨by simp [hcloses], by simp [hcloses], fun _ => ⟨fun hmem => ?_, fun herr => ?_⟩,
    by simp [hretries]⟩
  · obtain hplain | ⟨details, _, herr⟩ := hout _ hmem
    · cases hplain
    · cases herr
  · obtain ⟨e, he, herr⟩ := List.any_eq_true.mp herr
    obtain hplain | ⟨details, rfl, _⟩ := hout e he
    · cases e <;> simp_all [AcpEvent.isPlain, AcpEvent.isError]
    · trivial

/-- Every safe step is honest. -/
theorem honest_step (s : Session) (step : RouteStep) (h : s.Inv) (hsafe : s.watch.Safe step) :
    s.Honest step := by
  cases step with
  | prompt =>
    refine ⟨nofun, nofun, fun _ => ?_, nofun⟩
    -- a prompt answers with an error only if the turn before is still open
    simp only [routeStep]
    split <;> simp [AcpEvent.isError]
  | promptAccepted call =>
    refine honest_plain rfl rfl fun e he => ?_
    simp only [routeStep] at he
    split at he <;> cases he
  | promptFailed call details =>
    refine ⟨nofun, nofun, fun _ => ?_, nofun⟩
    simp only [routeStep, h.prompts, movePrompt]
    split
    · next prompts hmove =>
      refine ⟨by simp [promptError], fun _ => hsafe ?_⟩
      by_contra hno
      simp [hno] at hmove
    · exact ⟨List.not_mem_nil, nofun⟩
  | promptClosed call =>
    cases hphase : s.watch.closes (.promptClosed call) with
    | true =>
      have hphase : s.watch.prompts[call]? = some .failed := of_decide_eq_true hphase
      obtain ⟨harm, hcancelled, hdue⟩ := hsafe hphase
      have hout : (routeStep s.route (.promptClosed call)).2 = [activeToIdle] := by
        simp [routeStep, h.prompts, movePrompt, hphase]
      unfold Session.Honest
      rw [hout]
      refine ⟨fun _ _ => ⟨rfl, by simp [hcancelled], fun _ => ⟨by simp [hdue], by simp⟩⟩,
        fun _ hidle => by simp [harm] at hidle, fun hno => ?_, nofun⟩
      simp [Watch.closes, hphase] at hno
    | false =>
      refine honest_plain hphase rfl fun e he => ?_
      have hphase : s.watch.prompts[call]? ≠ some .failed := of_decide_eq_false hphase
      simp [routeStep, h.prompts, movePrompt, hphase] at he
  | cancel => exact ⟨nofun, nofun, fun _ => ⟨List.not_mem_nil, nofun⟩, nofun⟩
  | close =>
    refine ⟨fun _ harm => h.closesWith harm (hsafe harm), fun _ harm => ?_, nofun, nofun⟩
    simp [routeStep, closeTurn, h.armed, harm]
  | backfill entries =>
    exact honest_plain rfl rfl fun e he =>
      -- a replay has no errors, so it is plain
      Or.inl ((replayEntries_plain s.route.translate entries).2 e he)
  | event event =>
    cases hend : event.ending with
    | some ending =>
      obtain ⟨hhandle, -, -, hiff⟩ := handleEvent_ending hend s
      have hclass : s.watch.closes (.event event) = false ∧
          RouteStep.retries (.event event) = false := by
        cases event with
        | messageEnd => exact ⟨rfl, rfl⟩
        | _ => cases hend
      -- an ending neither closes nor retries
      refine ⟨by simp [hclass.1], by simp [hclass.1], fun _ => ?_, by simp [hclass.2]⟩
      simp only [routeStep, hhandle]
      cases ending with
      | aborted details =>
        refine ⟨by simp [Ending.translate, abortedTurnError], fun _ => ?_⟩
        cases event with
        | messageEnd => exact ⟨⟨details, hend⟩, hiff.mp hsafe⟩
        | _ => cases hend
      | _ => exact ⟨List.not_mem_nil, nofun⟩
    | none =>
      -- the other events are plain, but for an extension's own error
      have hplain := (translateEvent_plain hend s.route.translate).2
      cases event with
      | agentStart => exact ⟨nofun, nofun, fun _ => ⟨List.not_mem_nil, nofun⟩, nofun⟩
      | agentEnd leafId willRetry =>
        refine ⟨nofun, nofun, fun _ => ⟨List.not_mem_nil, nofun⟩, fun hretry => ?_⟩
        cases hretry
        exact ⟨h.said hsafe.1, rfl⟩
      | agentSettled =>
        refine ⟨fun _ harm => h.closesWith harm (hsafe harm), fun _ harm => ?_, nofun, nofun⟩
        simp [routeStep, handleEvent, closeTurn, h.armed, harm]
      | _ =>
        refine honest_plain rfl rfl fun e he => (hplain e he).imp_right ?_
        rintro ⟨details, hev, herr⟩
        exact ⟨details, congrArg _ hev, herr⟩

/-- The end of an assistant message that failed. -/
private def overloaded : PiEvent := .messageEnd "assistant".toList "error".toList (some "529".toList)

/-- A run that fails for good, and a queued one that starts before the session settles. -/
private def queuedRun : List RouteStep :=
  [.prompt, .event .agentStart, .event overloaded, .event (.agentEnd none false),
    .event .agentStart, .event (.agentEnd none false), .event .agentSettled]

/-- The child dies before it answers the prompt: the turn is closed once for the child and once for the prompt. -/
example : ¬ session.Steps Session.Honest session.init
    [.prompt, .close, .promptFailed 0 "closed".toList, .promptClosed 0] := by
  rintro ⟨-, -, -, ⟨-, hidle, -⟩, -⟩
  exact absurd (hidle (by decide) (by decide)) (by decide)

end TeamClu.Runtime
