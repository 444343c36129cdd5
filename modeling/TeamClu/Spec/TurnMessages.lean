import Mathlib.Data.List.DropRight
import TeamClu.Native.TurnAggregator

/-!
# A turn reaches the cloud once

The state of the aggregator inside a turn is a function of what the turn was fed (`inside`,
`feed_inside`): the flags and the attachments of what came since the last change from Idle to Active,
the buffers of what came since the last tool call.  From that the end of the turn is read off: one
message for the cloud unless `CloudOnce` fails, the texts of the turn in order, and a status that no
other turn has a part in (`turn_conserved`).
-/

namespace TeamClu.Runtime

open TurnAggregator

/-! ## What a turn was fed -/

/-- What a feed says of its turn. -/
structure Marks where
  /-- It counts as activity: content, an error of the turn, or a detach. -/
  activity : Bool := false
  /-- The text of an `Output`. -/
  output : Str := []
  /-- The text of a `Thinking`. -/
  thinking : Str := []
  /-- The error of a user abort. -/
  aborts : Bool := false
  /-- The error of a failed turn. -/
  fails : Bool := false
  /-- The result of a tool that was aborted. -/
  abortsTool : Bool := false
  detaches : Bool := false
  /-- A detach that leaves an approval pending. -/
  detachesApproval : Bool := false
  /-- A tool call, which flushes. -/
  flushes : Bool := false
  /-- A change from Idle to Active. -/
  opens : Bool := false
  /-- A change from Active to Idle. -/
  closes : Bool := false

/-- What a feed says of its turn. -/
def Feed.marks : Feed → Marks
  | .event (.thinking text) => { activity := true, thinking := text }
  | .event (.output text) => { activity := true, output := text }
  | .event (.toolUse _) => { activity := true, flushes := true }
  | .event (.toolResult tr) =>
    { activity := true, abortsTool := !tr.success && isAbortLikeToolResult tr.summary }
  | .event (.error err) =>
    { activity := classifyAcpError err != .sideChannel
      aborts := classifyAcpError err == .userAbort
      fails := classifyAcpError err == .turnFailure }
  | .event (.statusChange .idle .active) => { opens := true }
  | .event (.statusChange .active .idle) => { closes := true }
  | .markIdleTimeoutDetach approvalPending =>
    { activity := true, detaches := true, detachesApproval := approvalPending }
  | _ => {}

/-- What was fed since the last change from Idle to Active. -/
def sinceOpen (body : List Feed) : List Feed := body.rtakeWhile fun f => !f.marks.opens

/-- What was fed since the last tool call. -/
def sinceToolUse (body : List Feed) : List Feed := body.rtakeWhile fun f => !f.marks.flushes

/-- The prose that no tool call has flushed. -/
def pendingProse (body : List Feed) : Str := (sinceToolUse body).flatMap (·.marks.output)

/-- The thinking that no tool call has flushed. -/
def pendingThinking (body : List Feed) : Str := (sinceToolUse body).flatMap (·.marks.thinking)

/-- The turn saw activity. -/
def sawActivity (body : List Feed) : Bool := body.any (·.marks.activity)

/-- A turn is open. -/
def started (body : List Feed) : Bool := body.any fun f => f.marks.activity || f.marks.opens

/-- One feed's part in the names and the attachments of the tools. -/
def attachFeed (parseJson : Str → Option ParsedSessionAttach)
    (acc : List (Str × Str) × List ParsedSessionAttach) (f : Feed) :
    List (Str × Str) × List ParsedSessionAttach :=
  match f with
  | .event (.toolUse tu) => ((tu.toolId, tu.toolName) :: acc.1, acc.2)
  | .event (.toolResult tr) =>
    (acc.1, acc.2 ++
      (parseSessionAttachToolResult parseJson ((acc.1.lookup tr.toolId).getD []) tr).toList)
  | _ => acc

/-- The names of the tools called since the last change from Idle to Active, and what they
    attached. -/
def attached (parseJson : Str → Option ParsedSessionAttach) (body : List Feed) :
    List (Str × Str) × List ParsedSessionAttach :=
  (sinceOpen body).foldl (attachFeed parseJson) ([], [])

/-- The aggregator inside a turn, from what the turn was fed and how many ids were taken before. -/
def inside (uuid : Nat → Str) (parseJson : Str → Option ParsedSessionAttach) (n : Nat)
    (body : List Feed) : TurnAggregator where
  thinkingBuf := pendingThinking body
  replyBuf := pendingProse body
  currentTurnId := if started body then some (uuid n) else none
  turnHadActivity := sawActivity (sinceOpen body)
  turnWasInterrupted := (sinceOpen body).any (·.marks.aborts)
  turnFailed := (sinceOpen body).any (·.marks.fails)
  turnSawAbortToolResult := (sinceOpen body).any (·.marks.abortsTool)
  turnDetachIdleTimeout := body.any (·.marks.detaches)
  turnDetachApprovalTimeout := body.any (·.marks.detachesApproval)
  toolNames := (attached parseJson body).1
  turnAttachments := (attached parseJson body).2.map (·.record)
  turnAttachmentUrls := ((attached parseJson body).2.map (·.publicUrl)).filter (· ≠ [])
  uuids := if started body then n + 1 else n

variable {uuid : Nat → Str} {parseJson : Str → Option ParsedSessionAttach} {n : Nat}

/-! ## One feed -/

theorem sinceOpen_concat (body : List Feed) {f : Feed} (h : f.marks.opens = false) :
    sinceOpen (body ++ [f]) = sinceOpen body ++ [f] :=
  List.rtakeWhile_concat_pos _ _ _ (by simp [h])

theorem sinceToolUse_concat (body : List Feed) {f : Feed} (h : f.marks.flushes = false) :
    sinceToolUse (body ++ [f]) = sinceToolUse body ++ [f] :=
  List.rtakeWhile_concat_pos _ _ _ (by simp [h])

theorem attached_concat (body : List Feed) {f : Feed} (h : f.marks.opens = false) :
    attached parseJson (body ++ [f]) = attachFeed parseJson (attached parseJson body) f := by
  simp [attached, sinceOpen_concat body h, List.foldl_append]

theorem flushThinking_fst (s : TurnAggregator) : s.flushThinking.1 = { s with thinkingBuf := [] } := by
  unfold flushThinking
  split
  · next h => rw [← h]
  · rfl

theorem flushReply_false_fst (s : TurnAggregator) :
    (s.flushReply false).1 = { s with replyBuf := [] } := by
  unfold flushReply
  split
  · next h => rw [← h]
  · rfl

/-- An activity opens the turn, unless it is open. -/
theorem markActivity_inside (body : List Feed) :
    (inside uuid parseJson n body).markActivity uuid =
      { inside uuid parseJson n body with
          currentTurnId := some (uuid n), turnHadActivity := true, uuids := n + 1 } := by
  unfold markActivity ensureTurnStarted
  by_cases h : started body = true
  · simp [inside, h]
  · simp [inside, h]

/-- One more feed that is no tool call and no change from Idle to Active. -/
theorem inside_concat (body : List Feed) {f : Feed} (hopens : f.marks.opens = false)
    (hflushes : f.marks.flushes = false) :
    inside uuid parseJson n (body ++ [f]) =
      { inside uuid parseJson n body with
          thinkingBuf := pendingThinking body ++ f.marks.thinking
          replyBuf := pendingProse body ++ f.marks.output
          currentTurnId := if started body || f.marks.activity then some (uuid n) else none
          turnHadActivity := sawActivity (sinceOpen body) || f.marks.activity
          turnWasInterrupted := (sinceOpen body).any (·.marks.aborts) || f.marks.aborts
          turnFailed := (sinceOpen body).any (·.marks.fails) || f.marks.fails
          turnSawAbortToolResult := (sinceOpen body).any (·.marks.abortsTool) || f.marks.abortsTool
          turnDetachIdleTimeout := body.any (·.marks.detaches) || f.marks.detaches
          turnDetachApprovalTimeout := body.any (·.marks.detachesApproval) || f.marks.detachesApproval
          toolNames := (attachFeed parseJson (attached parseJson body) f).1
          turnAttachments := (attachFeed parseJson (attached parseJson body) f).2.map (·.record)
          turnAttachmentUrls :=
            ((attachFeed parseJson (attached parseJson body) f).2.map (·.publicUrl)).filter (· ≠ [])
          uuids := if started body || f.marks.activity then n + 1 else n } := by
  simp [inside, pendingThinking, pendingProse, sawActivity, started, sinceOpen_concat body hopens,
    sinceToolUse_concat body hflushes, attached_concat body hopens, hopens]

/-- A tool call empties the buffers. -/
theorem inside_toolUse (body : List Feed) (tu : AcpToolUse) :
    inside uuid parseJson n (body ++ [.event (.toolUse tu)]) =
      { inside uuid parseJson n body with
          thinkingBuf := [], replyBuf := [], currentTurnId := some (uuid n)
          turnHadActivity := true, uuids := n + 1
          toolNames := (tu.toolId, tu.toolName) :: (attached parseJson body).1 } := by
  have hopens : (Feed.event (.toolUse tu)).marks.opens = false := rfl
  have hsince : sinceToolUse (body ++ [.event (.toolUse tu)]) = [] :=
    List.rtakeWhile_concat_neg _ _ _ (by simp [Feed.marks])
  simp only [inside, pendingThinking, pendingProse, sawActivity, started, hsince,
    sinceOpen_concat body hopens, attached_concat body hopens, attachFeed, List.any_append]
  simp [Feed.marks]

/-- A change from Idle to Active clears the flags, and opens the turn unless it is open. -/
theorem inside_open (body : List Feed) :
    inside uuid parseJson n (body ++ [.event (.statusChange .idle .active)]) =
      { inside uuid parseJson n body with
          currentTurnId := some (uuid n), turnHadActivity := false, turnWasInterrupted := false
          turnFailed := false, turnSawAbortToolResult := false, toolNames := []
          turnAttachments := [], turnAttachmentUrls := [], uuids := n + 1 } := by
  have hflushes : (Feed.event (.statusChange .idle .active)).marks.flushes = false := rfl
  have hsince : sinceOpen (body ++ [.event (.statusChange .idle .active)]) = [] :=
    List.rtakeWhile_concat_neg _ _ _ (by simp [Feed.marks])
  simp only [inside, pendingThinking, pendingProse, sawActivity, started, hsince, attached,
    sinceToolUse_concat body hflushes, List.any_append]
  simp [Feed.marks]

/-- A feed that does not end the turn takes the aggregator from one point inside it to the next. -/
theorem feed_inside (body : List Feed) {f : Feed} (h : f.marks.closes = false) :
    ((inside uuid parseJson n body).feed uuid parseJson f).1 =
      inside uuid parseJson n (body ++ [f]) := by
  cases f with
  | markIdleTimeoutDetach approvalPending =>
    rw [inside_concat body rfl rfl]
    simp only [feed, TurnAggregator.markIdleTimeoutDetach, markActivity_inside]
    simp [inside, Feed.marks, attachFeed]
  | event event =>
    cases event with
    | thinking text =>
      -- text only grows a buffer and marks activity
      rw [inside_concat body rfl rfl]
      simp only [feed, ingest, markActivity_inside]
      simp [inside, Feed.marks, attachFeed]
    | output text =>
      rw [inside_concat body rfl rfl]
      simp only [feed, ingest, markActivity_inside]
      simp [inside, Feed.marks, attachFeed]
    | toolUse tu =>
      -- both buffers are flushed before the call is sent, so what is pending starts afresh
      simp only [feed, ingest, markActivity_inside, flushThinking_fst, flushReply_false_fst,
        inside_toolUse]
      rfl
    | toolResult tr =>
      -- a result may add an attachment; the tool's name comes from the call before it
      rw [inside_concat body rfl rfl]
      simp only [feed, ingest, markActivity_inside]
      have hnames : (inside uuid parseJson n body).toolNames = (attached parseJson body).1 := rfl
      simp only [hnames, attachFeed]
      -- only an attachment with an address adds one to the list of addresses
      cases parseSessionAttachToolResult parseJson
          (((attached parseJson body).1.lookup tr.toolId).getD []) tr with
      | none => simp [inside, Feed.marks]
      | some parsed => by_cases hurl : parsed.publicUrl = [] <;> simp [inside, Feed.marks, hurl]
    | error err =>
      rw [inside_concat body rfl rfl]
      -- the kinds of error set one flag each
      cases hkind : classifyAcpError err <;>
        simp only [feed, ingest, markActivity_inside, hkind] <;>
        simp [inside, Feed.marks, attachFeed, hkind]
    | statusChange oldStatus newStatus =>
      cases hopens : (Feed.event (.statusChange oldStatus newStatus)).marks.opens with
      -- going from idle to active discards the turn that was open
      | true =>
        obtain ⟨rfl, rfl⟩ : oldStatus = .idle ∧ newStatus = .active := by
          cases oldStatus <;> cases newStatus <;> simp_all [Feed.marks]
        rw [inside_open]
        simp only [feed, ingest, openTurn, ensureTurnStarted]
        cases hstarted : started body <;> simp [inside, hstarted]
      -- any other change of status leaves the aggregator as it is
      | false =>
        have hsame : ((inside uuid parseJson n body).feed uuid parseJson
            (.event (.statusChange oldStatus newStatus))).1 = inside uuid parseJson n body := by
          cases oldStatus <;> cases newStatus <;> simp_all [Feed.marks, feed, ingest]
        have hmarks : (Feed.event (.statusChange oldStatus newStatus)).marks = {} := by
          cases oldStatus <;> cases newStatus <;> simp_all [Feed.marks]
        rw [hsame, inside_concat body hopens (by rw [hmarks]), hmarks]
        simp [inside, attachFeed]
    | other =>
      rw [inside_concat body rfl rfl]
      simp [feed, ingest, inside, Feed.marks, attachFeed]

/-! ## The messages inside a turn -/

/-- The contents of the replies, in order. -/
def replyContents (msgs : List EmittedMessage) : List Str :=
  (msgs.filter fun m => m.kind == .agentReply).map (·.content)

/-- The contents of the thinking messages, in order. -/
def thinkingContents (msgs : List EmittedMessage) : List Str :=
  (msgs.filter fun m => m.kind == .agentThinking).map (·.content)

/-- The turn statuses that the messages carry. -/
def turnStatuses (msgs : List EmittedMessage) : List TurnStatus :=
  msgs.filterMap fun m => match m.metadata with
    | .turnStatus status => some status
    | _ => none

@[simp] theorem replyContents_append (msgs msgs' : List EmittedMessage) :
    replyContents (msgs ++ msgs') = replyContents msgs ++ replyContents msgs' := by
  simp [replyContents]

@[simp] theorem thinkingContents_append (msgs msgs' : List EmittedMessage) :
    thinkingContents (msgs ++ msgs') = thinkingContents msgs ++ thinkingContents msgs' := by
  simp [thinkingContents]

@[simp] theorem turnStatuses_append (msgs msgs' : List EmittedMessage) :
    turnStatuses (msgs ++ msgs') = turnStatuses msgs ++ turnStatuses msgs' := by
  simp [turnStatuses]

/-- What the messages of a turn are before its end: they carry its id, none is for the cloud, none has
    a status, and with what is still buffered their texts are those that were fed. -/
structure SentInside (uuid : Nat → Str) (n : Nat) (body : List Feed) (msgs : List EmittedMessage) :
    Prop where
  started_of_ne : msgs ≠ [] → started body = true
  turnId_eq : ∀ m ∈ msgs, m.turnId = uuid n
  not_cloud : ∀ m ∈ msgs, m.cloudPersist = false
  no_status : turnStatuses msgs = []
  replies_eq : (replyContents msgs).flatten ++ pendingProse body = body.flatMap (·.marks.output)
  thinking_eq : (thinkingContents msgs).flatten ++ pendingThinking body =
    body.flatMap (·.marks.thinking)

theorem flushThinking_snd (s : TurnAggregator) :
    (∀ m ∈ s.flushThinking.2, m.turnId = s.turnId ∧ m.cloudPersist = false) ∧
      turnStatuses s.flushThinking.2 = [] ∧ replyContents s.flushThinking.2 = [] ∧
      (thinkingContents s.flushThinking.2).flatten = s.thinkingBuf := by
  unfold flushThinking
  split
  · next h => simp [turnStatuses, replyContents, thinkingContents, h]
  · simp [turnStatuses, replyContents, thinkingContents]

theorem flushReply_false_snd (s : TurnAggregator) :
    (∀ m ∈ (s.flushReply false).2, m.turnId = s.turnId ∧ m.cloudPersist = false) ∧
      turnStatuses (s.flushReply false).2 = [] ∧ thinkingContents (s.flushReply false).2 = [] ∧
      (replyContents (s.flushReply false).2).flatten = s.replyBuf := by
  unfold flushReply
  split
  · next h => simp [turnStatuses, replyContents, thinkingContents, h]
  · simp [turnStatuses, replyContents, thinkingContents]

/-- Before anything is sent. -/
theorem SentInside.nil : SentInside uuid n [] [] where
  started_of_ne := fun h => absurd rfl h
  turnId_eq := nofun
  not_cloud := nofun
  no_status := rfl
  replies_eq := rfl
  thinking_eq := rfl

/-- A feed that sends nothing and leaves the buffers to what comes. -/
theorem SentInside.quiet {body : List Feed} {msgs : List EmittedMessage}
    (h : SentInside uuid n body msgs) {f : Feed} (hflushes : f.marks.flushes = false) :
    SentInside uuid n (body ++ [f]) msgs where
  started_of_ne := fun hne => by
    have := h.started_of_ne hne
    simp only [started, List.any_append, Bool.or_eq_true] at this ⊢
    exact .inl this
  turnId_eq := h.turnId_eq
  not_cloud := h.not_cloud
  no_status := h.no_status
  replies_eq := by
    have := h.replies_eq
    simp only [pendingProse, sinceToolUse_concat body hflushes, List.flatMap_append] at this ⊢
    rw [← this, List.append_assoc]
  thinking_eq := by
    have := h.thinking_eq
    simp only [pendingThinking, sinceToolUse_concat body hflushes, List.flatMap_append] at this ⊢
    rw [← this, List.append_assoc]

/-- A tool call: the buffers go out before it. -/
private theorem SentInside.toolUse {body : List Feed} {msgs thinking reply : List EmittedMessage}
    (h : SentInside uuid n body msgs) (tu : AcpToolUse)
    (hlive : ∀ m ∈ thinking ++ reply, m.turnId = uuid n ∧ m.cloudPersist = false)
    (hstatus : turnStatuses (thinking ++ reply) = [])
    (hreply : (replyContents (thinking ++ reply)).flatten = pendingProse body)
    (hthinking : (thinkingContents (thinking ++ reply)).flatten = pendingThinking body)
    {call : EmittedMessage} (hcall : call = { kind := .agentToolCall, content := tu.toolName
                                              metadata := .toolUse tu, turnId := uuid n }) :
    SentInside uuid n (body ++ [.event (.toolUse tu)]) (msgs ++ (thinking ++ reply ++ [call])) := by
  subst hcall
  -- nothing is pending behind a tool call
  have hsince : sinceToolUse (body ++ [.event (.toolUse tu)]) = [] :=
    List.rtakeWhile_concat_neg _ _ _ (by simp [Feed.marks])
  refine ⟨fun _ => by simp [started, Feed.marks], ?_, ?_, ?_, ?_, ?_⟩
  · -- the three messages carry the turn's id
    intro m hm
    rcases List.mem_append.mp hm with hm | hm
    · exact h.turnId_eq m hm
    · rcases List.mem_append.mp hm with hm | hm
      · exact (hlive m hm).1
      · rw [List.mem_singleton.mp hm]
  · -- none of them is for the cloud: only the final reply is
    intro m hm
    rcases List.mem_append.mp hm with hm | hm
    · exact h.not_cloud m hm
    · rcases List.mem_append.mp hm with hm | hm
      · exact (hlive m hm).2
      · rw [List.mem_singleton.mp hm]
  · rw [turnStatuses_append, turnStatuses_append, h.no_status, hstatus]
    rfl
  · -- the flushed reply is the prose that was pending
    rw [replyContents_append, replyContents_append, List.flatten_append, List.flatten_append, hreply,
      List.flatMap_append, ← h.replies_eq, pendingProse, pendingProse, hsince]
    simp [replyContents, Feed.marks]
  · -- and likewise for the thinking
    rw [thinkingContents_append, thinkingContents_append, List.flatten_append, List.flatten_append,
      hthinking, List.flatMap_append, ← h.thinking_eq, pendingThinking, pendingThinking, hsince]
    simp [thinkingContents, Feed.marks]

/-- A message that is neither a reply nor thinking. -/
private theorem SentInside.toolResult {body : List Feed} {msgs : List EmittedMessage}
    (h : SentInside uuid n body msgs) (hstarted : started body = true) (tr : AcpToolResult) {result : EmittedMessage}
    (hresult : result = { kind := .agentToolResult, content := tr.summary
                          metadata := .toolResult tr, turnId := uuid n }) :
    SentInside uuid n body (msgs ++ [result]) := by
  subst hresult
  refine ⟨fun _ => hstarted, ?_, ?_, ?_, ?_, ?_⟩
  · intro m hm
    rcases List.mem_append.mp hm with hm | hm
    · exact h.turnId_eq m hm
    · rw [List.mem_singleton.mp hm]
  · intro m hm
    rcases List.mem_append.mp hm with hm | hm
    · exact h.not_cloud m hm
    · rw [List.mem_singleton.mp hm]
  · rw [turnStatuses_append, h.no_status]
    rfl
  · rw [replyContents_append, List.flatten_append, ← h.replies_eq]
    simp [replyContents]
  · rw [thinkingContents_append, List.flatten_append, ← h.thinking_eq]
    simp [thinkingContents]

/-- What one feed sends. -/
theorem SentInside.feed {body : List Feed} {msgs : List EmittedMessage}
    (h : SentInside uuid n body msgs) {f : Feed} (hcloses : f.marks.closes = false) :
    SentInside uuid n (body ++ [f])
      (msgs ++ ((inside uuid parseJson n body).feed uuid parseJson f).2) := by
  cases f with
  | markIdleTimeoutDetach approvalPending =>
    -- a detach sends nothing
    rw [show ((inside uuid parseJson n body).feed uuid parseJson
      (.markIdleTimeoutDetach approvalPending)).2 = [] from rfl, List.append_nil]
    exact h.quiet rfl
  | event event =>
    cases event with
    | thinking text => simpa [TurnAggregator.feed, ingest] using h.quiet rfl
    | output text => simpa [TurnAggregator.feed, ingest] using h.quiet rfl
    | other => simpa [TurnAggregator.feed, ingest] using h.quiet rfl
    | error err =>
      have hquiet := h.quiet (f := .event (.error err)) rfl
      -- an error sends nothing, whatever its kind
      cases hkind : classifyAcpError err <;> simpa [TurnAggregator.feed, ingest, hkind] using hquiet
    | statusChange oldStatus newStatus =>
      have hflushes : (Feed.event (.statusChange oldStatus newStatus)).marks.flushes = false := by
        cases oldStatus <;> cases newStatus <;> rfl
      have hquiet := h.quiet hflushes
      cases oldStatus <;> cases newStatus <;>
        simp_all [Feed.marks, TurnAggregator.feed, ingest]
    | toolUse tu =>
      -- a tool call sends what both buffers hold, and then itself
      have hthinking := flushThinking_snd ((inside uuid parseJson n body).markActivity uuid)
      have hreply := flushReply_false_snd
        { (inside uuid parseJson n body).markActivity uuid with thinkingBuf := [] }
      simp only [TurnAggregator.feed, ingest, flushThinking_fst, flushReply_false_fst]
      rw [markActivity_inside] at hthinking hreply ⊢
      refine h.toolUse tu ?_ ?_ ?_ ?_ rfl
      · intro m hm
        rcases List.mem_append.mp hm with hm | hm
        · exact hthinking.1 m hm
        · exact hreply.1 m hm
      · rw [turnStatuses_append, hthinking.2.1, hreply.2.1]
        rfl
      · rw [replyContents_append, hthinking.2.2.1, List.nil_append, hreply.2.2.2]
        rfl
      · rw [thinkingContents_append, hreply.2.2.1, List.append_nil, hthinking.2.2.2]
        rfl
    | toolResult tr =>
      -- a tool result sends itself and flushes nothing
      refine (h.quiet (f := .event (.toolResult tr)) rfl).toolResult
        (by simp [started, Feed.marks]) tr ?_
      rw [markActivity_inside]
      simp only [inside]
      split <;> rfl

/-- A turn, up to its end. -/
theorem feedAll_inside {body : List Feed} (hbody : ∀ f ∈ body, f.marks.closes = false) :
    (feedAll uuid parseJson { uuids := n } body).1 = inside uuid parseJson n body ∧
      SentInside uuid n body (feedAll uuid parseJson { uuids := n } body).2 := by
  induction body using List.reverseRecOn with
  | nil => exact ⟨rfl, SentInside.nil⟩
  | append_singleton body f ih =>
    obtain ⟨hstate, hsent⟩ := ih fun f hf => hbody f (List.mem_append_left _ hf)
    have hf := hbody f (List.mem_append_right _ (List.mem_singleton_self f))
    unfold feedAll at hstate hsent ⊢
    rw [List.foldl_append]
    simp only [List.foldl_cons, List.foldl_nil]
    rw [hstate]
    exact ⟨feed_inside body hf, hsent.feed hf⟩

/-! ## The end of a turn -/

/-- The turn was interrupted, failed, or was detached. -/
def endsBadly (s : TurnAggregator) : Bool :=
  s.turnSawAbortToolResult || s.turnWasInterrupted || s.turnFailed || s.turnDetachIdleTimeout

/-- The status of a turn that ended badly. -/
def statusOfEnd (s : TurnAggregator) : TurnStatus :=
  if s.turnDetachApprovalTimeout then .approvalTimeout
  else if s.turnDetachIdleTimeout then .idleTimeout
  else if s.turnSawAbortToolResult || s.turnWasInterrupted then .interrupted
  else .failed

/-- A reply that takes the attachments along. -/
def finalMessage (s : TurnAggregator) (content : Str) (metadata : Metadata) : EmittedMessage :=
  { kind := .agentReply, content, metadata, turnId := s.turnId, cloudPersist := true
    attachments := s.turnAttachments, attachmentUrls := s.turnAttachmentUrls }

/-- The notice after a reply that took the attachments. -/
def bareNotice (s : TurnAggregator) : EmittedMessage :=
  { kind := .agentReply, content := noticeOf .noFinalReply, metadata := .turnStatus .noFinalReply
    turnId := s.turnId, cloudPersist := true }

/-- The replies of the end of a turn. -/
def finalMessages (s : TurnAggregator) : List EmittedMessage :=
  if endsBadly s && s.turnHadActivity then
    [finalMessage s (if Str.trim s.replyBuf = [] then noticeOf (statusOfEnd s) else s.replyBuf)
      (.turnStatus (statusOfEnd s))]
  else if Str.trim s.replyBuf ≠ [] then [finalMessage s s.replyBuf .empty]
  else if s.replyBuf = [] then
    if s.turnHadActivity then
      [finalMessage s (noticeOf .noFinalReply) (.turnStatus .noFinalReply)]
    else []
  else finalMessage s s.replyBuf .empty :: if s.turnHadActivity then [bareNotice s] else []

/-- An aborted tool counts as an interrupt. -/
private theorem finalReply_eq (s : TurnAggregator) :
    s.finalReply.2 = finalMessages s ∧ s.finalReply.1.replyBuf = [] ∧
      s.finalReply.1.thinkingBuf = s.thinkingBuf ∧ s.finalReply.1.uuids = s.uuids := by
  unfold finalReply finalMessages endsBadly statusOfEnd
  cases hsaw : s.turnSawAbortToolResult
  · simp only [Bool.false_eq_true, if_false, Bool.false_or]
    cases hbad : (s.turnWasInterrupted || s.turnFailed || s.turnDetachIdleTimeout) &&
      s.turnHadActivity
    · simp only [Bool.false_eq_true, if_false]
      by_cases hempty : s.replyBuf = []
      · -- a blank buffer still closes an active turn with a notice
        cases hactivity : s.turnHadActivity <;>
          simp [flushReply, emitAgentReply, hempty, hactivity, finalMessage, TurnAggregator.turnId]
      · -- a reply of white space alone is sent and then followed by a notice
        by_cases hblank : Str.trim s.replyBuf = [] <;> cases hactivity : s.turnHadActivity <;>
          simp [flushReply, emitAgentReply, hempty, hblank, hactivity, finalMessage, bareNotice,
            TurnAggregator.turnId]
    · -- a turn that ended badly sends its status, whatever the buffer holds
      simp [emitAgentReply, finalMessage, badStatus, TurnAggregator.turnId]
  · simp only [if_true, Bool.true_or, Bool.true_and]
    -- an aborted tool result ends the turn badly even if nothing else did
    cases hactivity : s.turnHadActivity
    · by_cases hempty : s.replyBuf = []
      · simp [flushReply, hempty]
      · by_cases hblank : Str.trim s.replyBuf = [] <;>
          simp [flushReply, emitAgentReply, hempty, hblank, finalMessage, TurnAggregator.turnId]
    · simp [emitAgentReply, finalMessage, badStatus, TurnAggregator.turnId]

/-- A change from Active to Idle leaves the aggregator as it started, but for the ids it took. -/
theorem closeTurn_fst (s : TurnAggregator) : s.closeTurn.1 = { uuids := s.uuids } := by
  obtain ⟨-, hreply, hthinking, huuids⟩ := finalReply_eq { s with thinkingBuf := [] }
  unfold TurnAggregator.closeTurn
  simp only [flushThinking_fst]
  simp [hreply, hthinking, huuids]

/-- What a change from Active to Idle sends: the thinking, then the replies of the end. -/
theorem closeTurn_snd (s : TurnAggregator) :
    s.closeTurn.2 = s.flushThinking.2 ++ finalMessages s := by
  unfold TurnAggregator.closeTurn
  simp only [flushThinking_fst, (finalReply_eq _).1]
  rfl

/-! ## Whole turns -/

/-- The feed that ends a turn. -/
def closeFeed : Feed := .event (.statusChange .active .idle)

/-- Nothing was fed, or a turn has just ended. -/
def AtBoundary (pre : List Feed) : Prop := pre = [] ∨ ∃ earlier, pre = earlier ++ [closeFeed]

/-- The messages of the turn that was fed `body` after `pre`. -/
def turnMessages (uuid : Nat → Str) (parseJson : Str → Option ParsedSessionAttach)
    (pre body : List Feed) : List EmittedMessage :=
  (feedAll uuid parseJson (feedAll uuid parseJson {} pre).1 (body ++ [closeFeed])).2

theorem feedAll_concat (s : TurnAggregator) (fs : List Feed) (f : Feed) :
    feedAll uuid parseJson s (fs ++ [f]) =
      (((feedAll uuid parseJson s fs).1.feed uuid parseJson f).1,
        (feedAll uuid parseJson s fs).2 ++ ((feedAll uuid parseJson s fs).1.feed uuid parseJson f).2) := by
  simp [feedAll, List.foldl_append]

/-- Between turns the aggregator is as it started, but for the ids it took. -/
theorem feedAll_boundary {pre : List Feed} (h : AtBoundary pre) :
    (feedAll uuid parseJson {} pre).1 = { uuids := (feedAll uuid parseJson {} pre).1.uuids } := by
  rcases h with rfl | ⟨earlier, rfl⟩
  · rfl
  · rw [feedAll_concat]
    show (TurnAggregator.closeTurn _).1 = { uuids := (TurnAggregator.closeTurn _).1.uuids }
    rw [closeTurn_fst]

/-- The messages of a turn: those inside it, the last thinking, and the replies of its end. -/
theorem turnMessages_eq {pre body : List Feed} (hpre : AtBoundary pre)
    (hbody : ∀ f ∈ body, f.marks.closes = false) :
    ∃ msgs, SentInside uuid (feedAll uuid parseJson {} pre).1.uuids body msgs ∧
      turnMessages uuid parseJson pre body = msgs ++
        ((inside uuid parseJson (feedAll uuid parseJson {} pre).1.uuids body).flushThinking.2 ++
          finalMessages (inside uuid parseJson (feedAll uuid parseJson {} pre).1.uuids body)) := by
  obtain ⟨hstate, hsent⟩ := @feedAll_inside uuid parseJson
    (feedAll uuid parseJson {} pre).1.uuids body hbody
  refine ⟨_, hsent, ?_⟩
  unfold turnMessages
  rw [feedAll_boundary hpre, feedAll_concat, hstate]
  exact congrArg _ (closeTurn_snd _)

/-! ### Activity -/

theorem activity_of_output {f : Feed} (h : f.marks.output ≠ []) : f.marks.activity = true := by
  cases f with
  | markIdleTimeoutDetach => rfl
  | event event =>
    cases event with
    | statusChange oldStatus newStatus => cases oldStatus <;> cases newStatus <;> simp [Feed.marks] at h
    | error err => exact absurd rfl h
    | other => exact absurd rfl h
    | _ => rfl

theorem activity_of_thinking {f : Feed} (h : f.marks.thinking ≠ []) : f.marks.activity = true := by
  cases f with
  | markIdleTimeoutDetach => rfl
  | event event =>
    cases event with
    | statusChange oldStatus newStatus => cases oldStatus <;> cases newStatus <;> simp [Feed.marks] at h
    | error err => exact absurd rfl h
    | other => exact absurd rfl h
    | _ => rfl

theorem sawActivity_of_suffix {part body : List Feed} (hpart : part <:+ body)
    (h : sawActivity part = true) : sawActivity body = true := by
  obtain ⟨f, hmem, hf⟩ := List.any_eq_true.mp h
  exact List.any_eq_true.mpr ⟨f, hpart.subset hmem, hf⟩

theorem sawActivity_of_pendingProse {body : List Feed} (h : pendingProse body ≠ []) :
    sawActivity body = true := by
  obtain ⟨f, hmem, hf⟩ : ∃ f ∈ sinceToolUse body, f.marks.output ≠ [] := by
    by_contra hnone
    push Not at hnone
    exact h (List.flatMap_eq_nil_iff.mpr hnone)
  exact List.any_eq_true.mpr ⟨f, (List.rtakeWhile_suffix _ body).subset hmem, activity_of_output hf⟩

theorem sawActivity_of_pendingThinking {body : List Feed} (h : pendingThinking body ≠ []) :
    sawActivity body = true := by
  obtain ⟨f, hmem, hf⟩ : ∃ f ∈ sinceToolUse body, f.marks.thinking ≠ [] := by
    by_contra hnone
    push Not at hnone
    exact h (List.flatMap_eq_nil_iff.mpr hnone)
  exact List.any_eq_true.mpr ⟨f, (List.rtakeWhile_suffix _ body).subset hmem, activity_of_thinking hf⟩

theorem started_of_sawActivity {body : List Feed} (h : sawActivity body = true) :
    started body = true := by
  obtain ⟨f, hmem, hf⟩ := List.any_eq_true.mp h
  exact List.any_eq_true.mpr ⟨f, hmem, by simp [hf]⟩

/-- Only an activity attaches. -/
theorem attached_eq_nil {body : List Feed} (h : sawActivity (sinceOpen body) = false) :
    (attached parseJson body).2 = [] := by
  unfold attached
  generalize hstart : (([], []) : List (Str × Str) × List ParsedSessionAttach) = acc
  have hnil : acc.2 = [] := by rw [← hstart]
  clear hstart
  generalize sinceOpen body = fs at h ⊢
  -- without activity no tool event came since the turn was opened, so nothing was attached
  induction fs generalizing acc with
  | nil => exact hnil
  | cons f fs ih =>
    simp only [sawActivity, List.any_cons, Bool.or_eq_false_iff] at h
    refine ih _ ?_ h.2
    cases f with
    | markIdleTimeoutDetach => exact hnil
    | event event =>
      cases event with
      | toolUse tu => exact nomatch h.1
      | toolResult tr => exact nomatch h.1
      | _ => exact hnil

/-! ### Once for the cloud -/

/-- What was fed up to the end of a turn makes it end badly. -/
def fedBadEnd (body : List Feed) : Bool :=
  (sinceOpen body).any (·.marks.abortsTool) || (sinceOpen body).any (·.marks.aborts) ||
    (sinceOpen body).any (·.marks.fails) || body.any (·.marks.detaches)

/-- The turn gets its one message for the cloud: what it saw since the last change from Idle to Active
    makes a reply, and no reply of white space takes the attachments away before the notice. -/
def CloudOnce (parseJson : Str → Option ParsedSessionAttach) (body : List Feed) : Prop :=
  if sawActivity (sinceOpen body) then
    fedBadEnd body = true ∨ pendingProse body = [] ∨ Str.trim (pendingProse body) ≠ [] ∨
      (attached parseJson body).2 = []
  else Str.trim (pendingProse body) ≠ [] ∨ sawActivity body = false

instance (parseJson : Str → Option ParsedSessionAttach) (body : List Feed) :
    Decidable (CloudOnce parseJson body) :=
  inferInstanceAs (Decidable (if sawActivity (sinceOpen body) = true then _ ∨ _ ∨ _ ∨ _ else _ ∨ _))

theorem noticeOf_visible (status : TurnStatus) : Str.trim (noticeOf status) ≠ [] := by
  refine Str.trim_ne_nil (c := '[') ?_ (by decide)
  cases status <;> exact List.mem_cons_self

theorem endsBadly_inside (body : List Feed) :
    endsBadly (inside uuid parseJson n body) = fedBadEnd body := rfl

theorem cloudPersistent_finalMessage {s : TurnAggregator} {content : Str} {metadata : Metadata}
    (h : Str.trim content ≠ []) : cloudPersistent (finalMessage s content metadata) = true := by
  simp [cloudPersistent, finalMessage, h]

/-- Of the replies of the end one is for the cloud, if the turn saw activity, exactly when `CloudOnce`
    holds. -/
theorem countP_finalMessages (body : List Feed) :
    (finalMessages (inside uuid parseJson n body)).countP cloudPersistent =
        (if sawActivity body then 1 else 0) ↔ CloudOnce parseJson body := by
  have hactivity : (inside uuid parseJson n body).turnHadActivity = sawActivity (sinceOpen body) := rfl
  have hprose : (inside uuid parseJson n body).replyBuf = pendingProse body := rfl
  have hattachments : (inside uuid parseJson n body).turnAttachments =
    (attached parseJson body).2.map (·.record) := rfl
  -- every notice has a visible text, so a message that carries one is for the cloud
  have hnotice := fun metadata => @cloudPersistent_finalMessage
    (inside uuid parseJson n body) _ metadata (noticeOf_visible .noFinalReply)
  have hbare : cloudPersistent (bareNotice (inside uuid parseJson n body)) = true := by
    simp [cloudPersistent, bareNotice, noticeOf_visible .noFinalReply]
  unfold finalMessages CloudOnce
  rw [endsBadly_inside, hactivity, hprose]
  by_cases hblank : Str.trim (pendingProse body) = []
  · -- the buffer is blank: only a notice, a status or an attachment can be for the cloud
    cases hlate : sawActivity (sinceOpen body) with
    | true =>
      have hsaw := sawActivity_of_suffix (List.rtakeWhile_suffix _ body) hlate
      cases hbad : fedBadEnd body with
      | true =>
        have hstatus := @cloudPersistent_finalMessage (inside uuid parseJson n body) _
          (.turnStatus (statusOfEnd (inside uuid parseJson n body)))
          (noticeOf_visible (statusOfEnd (inside uuid parseJson n body)))
        simp [hblank, hsaw, hstatus]
      | false =>
        by_cases hempty : pendingProse body = []
        · simp [hempty, hsaw, hnotice]
        · -- a reply of white space is for the cloud when it has attachments, the notice always
          have hspace : cloudPersistent
              (finalMessage (inside uuid parseJson n body) (pendingProse body) .empty) =
                ((attached parseJson body).2 != []) := by
            simp only [cloudPersistent, finalMessage, hblank, hattachments]
            cases (attached parseJson body).2 <;> rfl
          by_cases hattached : (attached parseJson body).2 = [] <;>
            simp [hempty, hblank, hsaw, hbare, hspace, hattached]
    | false =>
      -- no activity since the turn was last opened: no notice, and nothing was attached
      have hnone := @attached_eq_nil parseJson body hlate
      have hspace : cloudPersistent
          (finalMessage (inside uuid parseJson n body) (pendingProse body) .empty) = false := by
        simp [cloudPersistent, finalMessage, hblank, hattachments, hnone]
      by_cases hempty : pendingProse body = [] <;> cases hsaw : sawActivity body <;>
        simp [hempty, hblank, hspace]
  · have hsaw : sawActivity body = true :=
      -- the buffer holds visible prose: it ends in the one message for the cloud
      sawActivity_of_pendingProse fun h => hblank (by rw [h]; rfl)
    have hvisible := fun metadata => @cloudPersistent_finalMessage
      (inside uuid parseJson n body) _ metadata hblank
    cases sawActivity (sinceOpen body) <;> cases fedBadEnd body <;>
      simp [hblank, hsaw, hvisible]

/-! ### Texts, statuses and ids -/

/-- The status of a turn that ended badly, from what it was fed. -/
def fedStatus (body : List Feed) : TurnStatus :=
  if body.any (·.marks.detachesApproval) then .approvalTimeout
  else if body.any (·.marks.detaches) then .idleTimeout
  else if (sinceOpen body).any (·.marks.abortsTool) || (sinceOpen body).any (·.marks.aborts) then
    .interrupted
  else .failed

/-- The statuses that the messages of a turn carry, from what it was fed. -/
def statusesOfTurn (body : List Feed) : List TurnStatus :=
  if fedBadEnd body && sawActivity (sinceOpen body) then [fedStatus body]
  else if Str.trim (pendingProse body) = [] && sawActivity (sinceOpen body) then [.noFinalReply]
  else []

theorem turnStatuses_finalMessages (body : List Feed) :
    turnStatuses (finalMessages (inside uuid parseJson n body)) = statusesOfTurn body := by
  have hactivity : (inside uuid parseJson n body).turnHadActivity = sawActivity (sinceOpen body) := rfl
  have hprose : (inside uuid parseJson n body).replyBuf = pendingProse body := rfl
  have hstatus : statusOfEnd (inside uuid parseJson n body) = fedStatus body := rfl
  unfold finalMessages statusesOfTurn
  rw [endsBadly_inside, hactivity, hprose, hstatus]
  by_cases hblank : Str.trim (pendingProse body) = [] <;> by_cases hempty : pendingProse body = [] <;>
    cases sawActivity (sinceOpen body) <;> cases fedBadEnd body <;>
    simp_all [turnStatuses, finalMessage, bareNotice]

/-- The replies of the end are the pending prose, unless it is dropped as white space, and a notice. -/
theorem replyContents_finalMessages (s : TurnAggregator) :
    ∃ slices notices dropped, replyContents (finalMessages s) = slices ++ notices ∧
      notices.length ≤ 1 ∧ (∀ c ∈ notices, ∃ status, c = noticeOf status) ∧
      Str.trim dropped = [] ∧ slices.flatten ++ dropped = s.replyBuf := by
  -- each way to end a turn: the bad ends, the attachments, the empty buffer and the prose
  have hnotice : ∀ status, ∀ c ∈ [noticeOf status], ∃ status, c = noticeOf status :=
    fun status c hc => ⟨status, List.mem_singleton.mp hc⟩
  have hcontents : ∀ content metadata, replyContents [finalMessage s content metadata] = [content] :=
    fun _ _ => rfl
  unfold finalMessages
  split
  · -- a status in place of blank prose
    by_cases hblank : Str.trim s.replyBuf = []
    · exact ⟨[], [noticeOf (statusOfEnd s)], s.replyBuf, by rw [if_pos hblank, hcontents]; rfl, le_refl _,
        hnotice _, hblank, rfl⟩
    · -- the prose itself, with the status on it
      exact ⟨[s.replyBuf], [], [], by rw [if_neg hblank, hcontents]; rfl, Nat.zero_le _, nofun, rfl,
        by simp⟩
  · split
    · exact ⟨[s.replyBuf], [], [], rfl, Nat.zero_le _, nofun, rfl, by simp⟩
    · split
      · -- without prose there is the notice or nothing
        next hempty =>
        split
        · exact ⟨[], [noticeOf .noFinalReply], [], rfl, le_refl _, hnotice _, rfl, by simp [hempty]⟩
        · exact ⟨[], [], [], rfl, Nat.zero_le _, nofun, rfl, by simp [hempty]⟩
      · split
        · -- white space is sent as it is, with the notice behind it
          exact ⟨[s.replyBuf], [noticeOf .noFinalReply], [], rfl, le_refl _, hnotice _, rfl, by simp⟩
        · exact ⟨[s.replyBuf], [], [], rfl, Nat.zero_le _, nofun, rfl, by simp⟩

/-- Every message of the end is a reply of the turn, and there is none without activity. -/
theorem finalMessages_mem {s : TurnAggregator} {m : EmittedMessage} (hm : m ∈ finalMessages s) :
    m.kind = .agentReply ∧ m.turnId = s.turnId ∧ (s.turnHadActivity = true ∨ s.replyBuf ≠ []) := by
  unfold finalMessages at hm
  by_cases hempty : s.replyBuf = []
  · cases hactivity : s.turnHadActivity <;> simp [hempty, hactivity] at hm
    split at hm <;> simp [List.mem_singleton.mp hm, finalMessage]
  · have hor : s.turnHadActivity = true ∨ s.replyBuf ≠ [] := .inr hempty
    split at hm
    · exact ⟨by rw [List.mem_singleton.mp hm]; rfl, by rw [List.mem_singleton.mp hm]; rfl, hor⟩
    · split at hm
      · exact ⟨by rw [List.mem_singleton.mp hm]; rfl, by rw [List.mem_singleton.mp hm]; rfl, hor⟩
      · rcases List.mem_cons.mp hm with rfl | hm
        · exact ⟨rfl, rfl, hor⟩
        · split at hm
          · exact ⟨by rw [List.mem_singleton.mp hm]; rfl, by rw [List.mem_singleton.mp hm]; rfl, hor⟩
          · exact nomatch hm

/-- No feed gives an id back. -/
-- only the start of a turn draws an id, so the counter never goes back
theorem feed_uuids_le (s : TurnAggregator) (f : Feed) : s.uuids ≤ (s.feed uuid parseJson f).1.uuids := by
  have hstarted : ∀ s : TurnAggregator, s.uuids ≤ (s.ensureTurnStarted uuid).uuids := by
    intro s
    unfold ensureTurnStarted
    split
    · exact le_refl _
    · exact Nat.le_succ _
  have hopened : s.uuids ≤ (s.openTurn uuid).uuids := by
    unfold openTurn ensureTurnStarted
    dsimp only
    split
    · exact le_refl _
    · exact Nat.le_succ _
  cases f with
  | markIdleTimeoutDetach approvalPending => exact hstarted s
  | event event =>
    cases event with
    | thinking text => exact hstarted s
    | output text => exact hstarted s
    | toolUse tu =>
      simp only [TurnAggregator.feed, ingest, flushThinking_fst, flushReply_false_fst]
      exact hstarted s
    | toolResult tr =>
      simp only [TurnAggregator.feed, ingest]
      split <;> exact hstarted s
    | error err =>
      simp only [TurnAggregator.feed, ingest]
      split
      · exact le_refl _
      · exact hstarted s
      · exact hstarted s
    | statusChange oldStatus newStatus =>
      cases hmarks : (Feed.event (.statusChange oldStatus newStatus)).marks.closes with
      | true =>
        obtain ⟨rfl, rfl⟩ : oldStatus = .active ∧ newStatus = .idle := by
          cases oldStatus <;> cases newStatus <;> simp_all [Feed.marks]
        -- the close of a turn draws none
        show s.uuids ≤ s.closeTurn.1.uuids
        rw [closeTurn_fst]
      | false =>
        cases oldStatus <;> cases newStatus <;>
          first
          | exact le_refl _
          | exact hopened
          | simp [Feed.marks] at hmarks
    | other => exact le_refl _

theorem feedAll_uuids_le (s : TurnAggregator) (fs : List Feed) :
    s.uuids ≤ (feedAll uuid parseJson s fs).1.uuids := by
  induction fs using List.reverseRecOn with
  | nil => exact le_refl _
  | append_singleton fs f ih =>
    rw [feedAll_concat]
    exact ih.trans (feed_uuids_le _ f)

theorem feedAll_append (s : TurnAggregator) (fs gs : List Feed) :
    (feedAll uuid parseJson s (fs ++ gs)).1 =
      (feedAll uuid parseJson (feedAll uuid parseJson s fs).1 gs).1 := by
  induction gs using List.reverseRecOn with
  | nil => rw [List.append_nil]; rfl
  | append_singleton gs g ih => rw [← List.append_assoc, feedAll_concat, feedAll_concat, ih]

/-- All messages of a turn carry the id it took, and then it took one. -/
theorem turnMessages_id {pre body : List Feed} (hpre : AtBoundary pre)
    (hbody : ∀ f ∈ body, f.marks.closes = false) {m : EmittedMessage}
    (hm : m ∈ turnMessages uuid parseJson pre body) :
    m.turnId = uuid (feedAll uuid parseJson {} pre).1.uuids ∧ started body = true := by
  obtain ⟨msgs, hsent, heq⟩ := @turnMessages_eq uuid parseJson pre body hpre hbody
  rw [heq] at hm
  -- the messages were sent inside the turn, or by its close
  generalize (feedAll uuid parseJson {} pre).1.uuids = n at hsent hm ⊢
  have hid : started body = true → (inside uuid parseJson n body).turnId = uuid n := by
    intro h
    simp [TurnAggregator.turnId, inside, h]
  rcases List.mem_append.mp hm with hm | hm
  · exact ⟨hsent.turnId_eq m hm, hsent.started_of_ne (List.ne_nil_of_mem hm)⟩
  · rcases List.mem_append.mp hm with hm | hm
    · -- thinking left over at the close means that the turn had been active
      have hstarted : started body = true := by
        refine started_of_sawActivity (sawActivity_of_pendingThinking fun hempty => ?_)
        have hnil : (inside uuid parseJson n body).thinkingBuf = [] := hempty
        rw [flushThinking, if_pos hnil] at hm
        exact nomatch hm
      exact ⟨((flushThinking_snd _).1 m hm).1.trans (hid hstarted), hstarted⟩
    · obtain ⟨-, hturn, hor⟩ := finalMessages_mem hm
      -- and so does a final message, which needs activity or prose
      have hstarted : started body = true := by
        refine started_of_sawActivity (hor.elim (fun h => ?_) sawActivity_of_pendingProse)
        exact sawActivity_of_suffix (List.rtakeWhile_suffix _ body) h
      exact ⟨hturn.trans (hid hstarted), hstarted⟩

/-- A turn reaches the cloud once, if it saw activity, exactly when `CloudOnce` holds. -/
theorem countP_turnMessages {pre body : List Feed} (hpre : AtBoundary pre)
    (hbody : ∀ f ∈ body, f.marks.closes = false) :
    (turnMessages uuid parseJson pre body).countP cloudPersistent =
        (if sawActivity body then 1 else 0) ↔ CloudOnce parseJson body := by
  obtain ⟨sent, hsent, heq⟩ := @turnMessages_eq uuid parseJson pre body hpre hbody
  have hnone : ∀ l : List EmittedMessage, (∀ m ∈ l, m.cloudPersist = false) →
      l.countP cloudPersistent = 0 := by
    intro l hl
    refine List.countP_eq_zero.mpr fun m hm => ?_
    simp [cloudPersistent, hl m hm]
  rw [heq, List.countP_append, List.countP_append, hnone sent hsent.not_cloud,
    hnone _ fun m hm => ((flushThinking_snd _).1 m hm).2, Nat.zero_add, Nat.zero_add]
  exact countP_finalMessages body

/-! ## The law of turns -/

/-- For a turn after any others: one of its messages is for the cloud if it saw activity, and none
    otherwise, exactly when `CloudOnce` holds; its messages carry one id, which no later turn has; its
    replies are its prose, up to white space, and at most one notice, and its thinking is what it
    thought; its status is a function of what it was fed. -/
theorem turn_conserved (uuid : Nat → Str) (parseJson : Str → Option ParsedSessionAttach)
    (hinjective : uuid.Injective) (hne : ∀ k, uuid k ≠ []) (pre body : List Feed)
    (hpre : AtBoundary pre) (hbody : ∀ f ∈ body, f.marks.closes = false) :
    let msgs := turnMessages uuid parseJson pre body
    (msgs.countP cloudPersistent = (if sawActivity body then 1 else 0) ↔ CloudOnce parseJson body) ∧
      (∃ id, id ≠ [] ∧ ∀ m ∈ msgs, m.turnId = id) ∧
      (∀ later body', (∀ f ∈ body', f.marks.closes = false) →
        AtBoundary (pre ++ (body ++ [closeFeed]) ++ later) → ∀ m ∈ msgs,
          ∀ m' ∈ turnMessages uuid parseJson (pre ++ (body ++ [closeFeed]) ++ later) body',
            m.turnId ≠ m'.turnId) ∧
      (∃ slices notices dropped, replyContents msgs = slices ++ notices ∧ notices.length ≤ 1 ∧
        (∀ c ∈ notices, ∃ status, c = noticeOf status) ∧ Str.trim dropped = [] ∧
        slices.flatten ++ dropped = body.flatMap (·.marks.output)) ∧
      (thinkingContents msgs).flatten = body.flatMap (·.marks.thinking) ∧
      turnStatuses msgs = statusesOfTurn body := by
  intro msgs
  obtain ⟨sent, hsent, heq⟩ := @turnMessages_eq uuid parseJson pre body hpre hbody
  -- what the close flushes comes behind what was sent inside the turn
  have hmsgs : msgs = _ := heq
  have hflushed := flushThinking_snd (inside uuid parseJson (feedAll uuid parseJson {} pre).1.uuids body)
  refine ⟨countP_turnMessages hpre hbody,
    ⟨_, hne _, fun m hm => (turnMessages_id hpre hbody hm).1⟩, ?_, ?_, ?_, ?_⟩
  · intro later body' hbody' hlater m hm m' hm' hid
    obtain ⟨hturn, hstarted⟩ := turnMessages_id hpre hbody hm
    rw [hturn, (turnMessages_id hlater hbody' hm').1] at hid
    -- the turn took its id, and none is given back
    have hafter : (feedAll uuid parseJson {} (pre ++ (body ++ [closeFeed]))).1.uuids =
        (feedAll uuid parseJson {} pre).1.uuids + 1 := by
      rw [feedAll_append, feedAll_boundary hpre, feedAll_concat, (feedAll_inside hbody).1]
      show (TurnAggregator.closeTurn _).1.uuids = _
      rw [closeTurn_fst]
      simp [inside, hstarted]
    have hle : (feedAll uuid parseJson {} pre).1.uuids + 1 ≤
        (feedAll uuid parseJson {} (pre ++ (body ++ [closeFeed]) ++ later)).1.uuids := by
      rw [← hafter, feedAll_append {} (pre ++ (body ++ [closeFeed])) later]
      exact feedAll_uuids_le _ _
    have := hinjective hid
    omega
  · -- the slices flushed inside, and then the final reply
    obtain ⟨slices, notices, dropped, hreplies, hlength, hnotices, hblank, hflat⟩ :=
      replyContents_finalMessages
        (inside uuid parseJson (feedAll uuid parseJson {} pre).1.uuids body)
    refine ⟨replyContents sent ++ slices, notices, dropped, ?_, hlength, hnotices, hblank, ?_⟩
    · rw [hmsgs, replyContents_append, replyContents_append, hflushed.2.2.1, List.nil_append, hreplies,
        List.append_assoc]
    · rw [List.flatten_append, List.append_assoc, hflat]
      exact hsent.replies_eq
  · -- the final messages hold no thinking
    have hnone : thinkingContents (finalMessages
        (inside uuid parseJson (feedAll uuid parseJson {} pre).1.uuids body)) = [] := by
      refine List.map_eq_nil_iff.mpr (List.filter_eq_nil_iff.mpr fun m hm => ?_)
      simp [(finalMessages_mem hm).1]
    rw [hmsgs, thinkingContents_append, thinkingContents_append, hnone, List.append_nil,
      List.flatten_append, hflushed.2.2.2]
    exact hsent.thinking_eq
  · rw [hmsgs, turnStatuses_append, turnStatuses_append, hsent.no_status, hflushed.2.1,
      turnStatuses_finalMessages]
    rfl

/-! ## Turns that miss the cloud, or reach it twice -/

/-- The ids `a`, `aa` and so on. -/
def sampleUuid (k : Nat) : Str := List.replicate (k + 1) 'a'

/-- A turn that thinks and answers. -/
def answeredTurn : List Feed :=
  [.event (.statusChange .idle .active), .event (.thinking "hm".toList), .event (.output "yes".toList)]

/-- A turn that says what it does, calls a tool and answers. -/
def toolTurn : List Feed :=
  [.event (.statusChange .idle .active), .event (.output "I look.".toList),
    .event (.toolUse { toolId := "1".toList, toolName := "bash".toList }),
    .event (.toolResult { toolId := "1".toList, success := true, summary := "ok".toList }),
    .event (.output "done".toList)]

/-- A turn with a tool call and the turn after it reach the cloud once each, under ids of their own. -/
theorem turn_conserved_answeredTurn :
    let first := turnMessages sampleUuid (fun _ => none) [] toolTurn
    let second := turnMessages sampleUuid (fun _ => none) (toolTurn ++ [closeFeed]) answeredTurn
    first.countP cloudPersistent = 1 ∧ second.countP cloudPersistent = 1 ∧
      ∀ m ∈ first, ∀ m' ∈ second, m.turnId ≠ m'.turnId := by
  have hinjective : sampleUuid.Injective := by
    intro a b h
    simpa [sampleUuid] using congrArg List.length h
  have hanswered : ∀ f ∈ answeredTurn, f.marks.closes = false := by decide
  have hboundary : AtBoundary (toolTurn ++ [closeFeed]) := .inr ⟨toolTurn, rfl⟩
  obtain ⟨hfirst, -, hids, -⟩ := turn_conserved sampleUuid (fun _ => none) hinjective
    (fun _ => List.cons_ne_nil _ _) [] toolTurn (.inl rfl) (by decide)
  obtain ⟨hsecond, -⟩ := turn_conserved sampleUuid (fun _ => none) hinjective
    (fun _ => List.cons_ne_nil _ _) (toolTurn ++ [closeFeed]) answeredTurn hboundary hanswered
  exact ⟨hfirst.mpr (by decide +kernel), hsecond.mpr (by decide +kernel),
    hids [] answeredTurn hanswered hboundary⟩

/-- Thinking that arrives before the change from Idle to Active. -/
def lateTurn : List Feed :=
  [.event (.thinking "hm".toList), .event (.statusChange .idle .active)]

/-- The answer of `session_attach_file`, as one of its calls reads it. -/
def sampleAttach (raw : Str) : Option ParsedSessionAttach :=
  if raw = "\x7b\"ok\":true,\"fileName\":\"r.md\",\"url\":\"u\"\x7d".toList then
    some { record := { filename := "r.md".toList, mime := "application/octet-stream".toList
                       size := 0, bucketPath := "u".toList }, publicUrl := "u".toList }
  else none

/-- A file is attached, and a line break follows. -/
def attachingTurn : List Feed :=
  [.event (.statusChange .idle .active),
    .event (.toolUse { toolId := "1".toList, toolName := "session_attach_file".toList }),
    .event (.toolResult { toolId := "1".toList, success := true,
                          summary := "\x7b\"ok\":true,\"fileName\":\"r.md\",\"url\":\"u\"\x7d".toList }),
    .event (.output "\n".toList)]

/-- A turn with activity that does not reach the cloud, and one that reaches it more than once. -/
theorem turns_miscounted :
    ¬ ((turnMessages sampleUuid sampleAttach [] lateTurn).countP cloudPersistent =
        if sawActivity lateTurn then 1 else 0) ∧
      ¬ ((turnMessages sampleUuid sampleAttach [] attachingTurn).countP cloudPersistent =
        if sawActivity attachingTurn then 1 else 0) := by
  have hlate : ∀ f ∈ lateTurn, f.marks.closes = false := by decide
  have hattaching : ∀ f ∈ attachingTurn, f.marks.closes = false := by decide
  rw [countP_turnMessages (.inl rfl) hlate, countP_turnMessages (.inl rfl) hattaching]
  decide +kernel

end TeamClu.Runtime
