import Mathlib.Data.List.Basic
import TeamClu.Native.ChannelTurn
import TeamClu.Spec.TurnMessages

/-!
# The reply of a channel is the prose of the turn

The prose of a turn comes in runs, which the tool calls and the ends of the agent's turns cut.

Key results:
* `reply_is_prose`: whatever comes in between, the segments are the runs in their order, each run that is neither
  blank nor a status notice is one of them, the live text is the run that goes on, and the reply is both.
* `updates_grow`: each update is longer than the one before it and begins with it, and so does the reply.
* `cron_agrees`: a scheduled job ends with the same event as a channel without supplements, and with the same text.
-/

namespace TeamClu.Runtime

open TurnAggregator

/-! ## What is promised -/

/-- The event ends a run of prose. -/
def AcpEvent.cuts (event : AcpEvent) : Bool := (Feed.event event).marks.flushes || (Feed.event event).marks.closes

/-- The runs of prose that were cut, and the one that goes on; only an aggregator cuts. -/
def prose (events : List (Bool × AcpEvent)) : List Str × Str :=
  events.foldl (fun p (watched, event) =>
    if watched && event.cuts then (p.1 ++ [p.2], []) else (p.1, p.2 ++ (Feed.event event).marks.output)) ([], [])

/-- A run that the reply has to have. -/
def spoken (run : Str) : Bool := Str.trim run != [] && !isAgentFacingStatusNotice run

/-- The reply so far is the prose so far. -/
structure Collector.Faithful (c : Collector) : Prop where
  live_eq : c.live = (prose c.absorbed).2
  sublist : c.segments.Sublist (prose c.absorbed).1
  whole : c.segments.filter spoken = (prose c.absorbed).1.filter spoken
  noNotice : ∀ segment ∈ c.segments, isAgentFacingStatusNotice segment = false

/-- No prose is lost, doubled or out of order. -/
structure GatewayTurn.Reports (t : GatewayTurn) : Prop where
  collector : t.collector.Faithful
  reply : ∀ text, t.result = some (.ok text) → text = t.collector.text

/-- An update only adds to what was shown before. -/
structure GatewayTurn.Grows (t : GatewayTurn) : Prop where
  updates : t.updates.Pairwise fun u v => u <+: v ∧ u ≠ v
  reply : ∀ u ∈ t.updates, ∀ text, t.result = some (.ok text) → u <+: text

/-- How the turn ended: not yet, with a text, or with an error. -/
def GatewayTurn.said (t : GatewayTurn) : Option (Option Str) := t.result.map (·.toOption)

/-- How the turn ended: not yet, with a text, or with an error. -/
def CronTurn.said (t : CronTurn) : Option (Option Str) := t.result.map fun r => r.toOption.map (·.reply.content)

/-- The same for a scheduled job, which has no supplements and sends no updates. -/
def TurnInput.scheduled : TurnInput → Option CronInput
  | .frame event _ _ _ => some (.frame event)
  | .channelClosed => some .channelClosed
  | .elapsed => some .elapsed
  | .markIdleTimeoutDetach approvalPending => some (.markIdleTimeoutDetach approvalPending)
  | .removed => some .removed
  | .close | .append _ _ _ => none

/-- A supplement of the chat. -/
def TurnInput.appends : TurnInput → Bool
  | .append _ _ _ => true
  | _ => false

/-- Nothing is left over from an earlier turn. -/
structure TurnAggregator.BetweenTurns (agg : TurnAggregator) : Prop where
  replyBuf : agg.replyBuf = []
  turnFailed : agg.turnFailed = false

/-! ## The messages of one event -/

/-- A reply that becomes a segment. -/
private def kept (content : Str) : Bool := content != [] && !isAgentFacingStatusNotice content

private theorem absorbEmitted_eq (emitted : List EmittedMessage) (segments : List Str) (live : Str) :
    (absorbEmitted emitted segments live).1 = segments ++ (replyContents emitted).filter kept ∧
      (absorbEmitted emitted segments live).2.1 = if replyContents emitted = [] then live else [] := by
  induction emitted generalizing segments live with
  | nil => simp [absorbEmitted, replyContents]
  | cons m emitted ih =>
    by_cases hkind : m.kind = .agentReply
    · have hcontents : replyContents (m :: emitted) = m.content :: replyContents emitted := by
        simp [replyContents, hkind]
      rw [hcontents, absorbEmitted, if_pos hkind]
      obtain ⟨hsegments, hlive⟩ := ih
        (if m.content ≠ [] ∧ isAgentFacingStatusNotice m.content = false then segments ++ [m.content]
          else segments) []
      refine ⟨?_, ?_⟩
      · dsimp only
        rw [hsegments, List.filter_cons]
        by_cases hkept : m.content ≠ [] ∧ isAgentFacingStatusNotice m.content = false
        · have : kept m.content = true := by simp [kept, hkept]
          rw [if_pos hkept, if_pos this, List.append_assoc, List.singleton_append]
        · have : ¬ kept m.content = true := by
            simpa [kept] using hkept
          rw [if_neg hkept, if_neg this]
      · dsimp only
        rw [hlive, if_neg (List.cons_ne_nil _ _), ite_self]
    · have hcontents : replyContents (m :: emitted) = replyContents emitted := by
        simp [replyContents, hkind]
      rw [hcontents, absorbEmitted, if_neg hkind]
      exact ih segments live

/-- Every notice but that of a failure is one that a channel does not show. -/
private theorem noticeOf_isNotice {status : TurnStatus} (h : status ≠ .failed) :
    isAgentFacingStatusNotice (noticeOf status) = true := by
  cases status with
  | interrupted => rfl
  | approvalTimeout => rfl
  | idleTimeout => rfl
  | failed => exact absurd rfl h
  | noFinalReply => rfl

private theorem kept_notice {status : TurnStatus} (h : status ≠ .failed) : kept (noticeOf status) = false := by
  rw [kept, noticeOf_isNotice h, Bool.not_true, Bool.and_false]

/-- A blank run is not kept in every case, any other one is unless it is a notice. -/
private theorem kept_of_spoken {run : Str} (h : Str.trim run ≠ []) : kept run = spoken run := by
  have hne : run ≠ [] := by
    rintro rfl
    exact h rfl
  rw [kept, spoken, bne_iff_ne.mpr hne, bne_iff_ne.mpr h]

/-- What the replies of one event keep of the run that it cuts. -/
private structure Cut (run : Str) (replies : List Str) : Prop where
  flushed : run ≠ [] → replies ≠ []
  kept : replies.filter kept = [run] ∨ replies.filter kept = [] ∧ spoken run = false

private theorem cut_flushReply (s : TurnAggregator) (cloudPersist : Bool) :
    Cut s.replyBuf (replyContents (s.flushReply cloudPersist).2) := by
  have hcontents : replyContents (s.flushReply cloudPersist).2 = if s.replyBuf = [] then [] else [s.replyBuf] := by
    unfold flushReply emitAgentReply
    split_ifs <;> rfl
  rw [hcontents]
  split_ifs with hnil
  · exact ⟨fun h => absurd hnil h, .inr ⟨rfl, by simp [spoken, hnil]⟩⟩
  · refine ⟨fun _ => List.cons_ne_nil _ _, ?_⟩
    cases hkept : kept s.replyBuf with
    | true => exact .inl (by rw [List.filter_singleton, hkept, cond_true])
    | false =>
      have hnotice : isAgentFacingStatusNotice s.replyBuf = true := by simpa [kept, hnil] using hkept
      exact .inr ⟨by rw [List.filter_singleton, hkept, cond_false], by simp [spoken, hnotice]⟩

private theorem flushReply_replyBuf (s : TurnAggregator) (cloudPersist : Bool) :
    (s.flushReply cloudPersist).1.replyBuf = [] := by
  unfold flushReply emitAgentReply
  split_ifs with hnil
  · exact hnil
  · rfl
  · rfl

/-- One reply, or one and a notice. -/
private theorem Cut.notice {run : Str} {replies : List Str} (h : Cut run replies) {status : TurnStatus}
    (hstatus : status ≠ .failed) : Cut run (replies ++ [noticeOf status]) := by
  refine ⟨fun _ => by simp, ?_⟩
  rw [List.filter_append, List.filter_singleton, kept_notice hstatus, cond_false, List.append_nil]
  exact h.kept

/-- The end of a turn cuts the run, and a notice of a failure is not among its replies. -/
private theorem cut_finalReply {s : TurnAggregator} (hfailed : s.turnFailed = false) :
    s.finalReply.1.replyBuf = [] ∧ Cut s.replyBuf (replyContents s.finalReply.2) := by
  unfold finalReply
  -- an aborted tool phase changes the flags only
  generalize hs' : (if s.turnSawAbortToolResult then { s with turnWasInterrupted := true, turnFailed := false }
    else s) = s'
  have hbuf : s'.replyBuf = s.replyBuf := by
    rw [← hs']
    split_ifs <;> rfl
  have hfailed' : s'.turnFailed = false := by
    rw [← hs']
    split_ifs
    · rfl
    · exact hfailed
  rw [← hbuf]
  clear hs' hbuf hfailed
  dsimp only
  split_ifs with hbad hblank hnotice
  · -- a bad end: the status stands in for a run that says nothing
    have hstatus : s'.badStatus ≠ .failed := by
      rw [hfailed'] at hbad
      unfold badStatus
      split_ifs <;> simp_all
    have hreplies : replyContents
        ({ s' with replyBuf := [] }.emitAgentReply (noticeOf s'.badStatus) (.turnStatus s'.badStatus) true).2 =
        [noticeOf s'.badStatus] := rfl
    refine ⟨rfl, hreplies ▸ ⟨fun _ => List.cons_ne_nil _ _, .inr ⟨?_, by simp [spoken, hblank]⟩⟩⟩
    rw [List.filter_singleton, kept_notice hstatus, cond_false]
  · have hreplies : replyContents
        ({ s' with replyBuf := [] }.emitAgentReply s'.replyBuf (.turnStatus s'.badStatus) true).2 =
        [s'.replyBuf] := rfl
    refine ⟨rfl, hreplies ▸ ⟨fun _ => List.cons_ne_nil _ _, ?_⟩⟩
    rw [List.filter_singleton, kept_of_spoken hblank]
    cases spoken s'.replyBuf with
    | true => exact .inl (cond_true _ _)
    | false => exact .inr ⟨cond_false _ _, rfl⟩
  · refine ⟨flushReply_replyBuf s' true, ?_⟩
    rw [replyContents_append]
    exact @Cut.notice _ _ (cut_flushReply s' true) .noFinalReply (by decide)
  · exact ⟨flushReply_replyBuf s' true, cut_flushReply s' true⟩

/-! ## One event -/

variable {uuid : Nat → Str} {parseJson : Str → Option ParsedSessionAttach}

private theorem markActivity_keeps (s : TurnAggregator) :
    (s.markActivity uuid).replyBuf = s.replyBuf ∧ (s.markActivity uuid).turnFailed = s.turnFailed := by
  unfold markActivity ensureTurnStarted
  split
  · exact ⟨rfl, rfl⟩
  · exact ⟨rfl, rfl⟩

private theorem openTurn_keeps (s : TurnAggregator) :
    (s.openTurn uuid).replyBuf = s.replyBuf ∧ (s.openTurn uuid).turnFailed = false := by
  unfold openTurn ensureTurnStarted
  split
  · exact ⟨rfl, rfl⟩
  · exact ⟨rfl, rfl⟩

private theorem flushThinking_keeps (s : TurnAggregator) :
    s.flushThinking.1.replyBuf = s.replyBuf ∧ s.flushThinking.1.turnFailed = s.turnFailed ∧
      replyContents s.flushThinking.2 = [] := by
  rw [flushThinking_fst]
  exact ⟨rfl, rfl, (flushThinking_snd s).2.2.1⟩

/-- A tool call or the end of a turn. -/
private theorem ingest_cut {s : TurnAggregator} (hfailed : s.turnFailed = false) {event : AcpEvent}
    (hcuts : event.cuts = true) :
    (s.ingest uuid parseJson event).1.replyBuf = [] ∧ (s.ingest uuid parseJson event).1.turnFailed = false ∧
      Cut s.replyBuf (replyContents (s.ingest uuid parseJson event).2) := by
  cases event with
  | toolUse tu =>
    obtain ⟨hbuf, hflag⟩ := @markActivity_keeps uuid s
    obtain ⟨hbuf', hflag', hthinking⟩ := flushThinking_keeps (s.markActivity uuid)
    rw [hbuf] at hbuf'
    rw [hflag, hfailed] at hflag'
    rw [ingest]
    generalize (s.markActivity uuid).flushThinking = r at hbuf' hflag' hthinking ⊢
    obtain ⟨s', thinking⟩ := r
    dsimp only at hbuf' hflag' hthinking ⊢
    have hcall (t : TurnAggregator) :
        replyContents [{ kind := .agentToolCall, content := tu.toolName, metadata := .toolUse tu
                         turnId := t.turnId }] = [] := rfl
    rw [replyContents_append, replyContents_append, hthinking, hcall, List.append_nil, List.nil_append, ← hbuf']
    refine ⟨flushReply_replyBuf s' false, ?_, cut_flushReply s' false⟩
    rw [flushReply_false_fst]
    exact hflag'
  | statusChange oldStatus newStatus =>
    obtain ⟨rfl, rfl⟩ : oldStatus = .active ∧ newStatus = .idle := by
      cases oldStatus <;> cases newStatus <;> simp_all [AcpEvent.cuts, Feed.marks]
    obtain ⟨hbuf, hflag, hthinking⟩ := flushThinking_keeps s
    rw [hfailed] at hflag
    rw [ingest]
    unfold TurnAggregator.closeTurn
    generalize s.flushThinking = r at hbuf hflag hthinking ⊢
    obtain ⟨s', thinking⟩ := r
    dsimp only at hbuf hflag hthinking ⊢
    obtain ⟨hnil, hcut⟩ := cut_finalReply hflag
    rw [replyContents_append, hthinking, List.nil_append, ← hbuf]
    exact ⟨hnil, rfl, hcut⟩
  | thinking text => cases hcuts
  | output text => cases hcuts
  | toolResult tr => cases hcuts
  | error err => cases hcuts
  | other => cases hcuts

/-- Any other event, if it is not an error that ends the wait. -/
private theorem ingest_quiet {s : TurnAggregator} (hfailed : s.turnFailed = false) {event : AcpEvent}
    (hcuts : event.cuts = false) (herror : ∀ err, event = .error err → classifyAcpError err = .sideChannel) :
    (s.ingest uuid parseJson event).1.replyBuf = s.replyBuf ++ (Feed.event event).marks.output ∧
      (s.ingest uuid parseJson event).1.turnFailed = false ∧
      replyContents (s.ingest uuid parseJson event).2 = [] := by
  obtain ⟨hbuf, hflag⟩ := @markActivity_keeps uuid s
  rw [hfailed] at hflag
  cases event with
  | thinking text => exact ⟨by rw [ingest]; exact hbuf.trans (List.append_nil _).symm, hflag, rfl⟩
  | output text => exact ⟨by rw [ingest]; exact congrArg (· ++ text) hbuf, hflag, rfl⟩
  | toolUse tu => cases hcuts
  | toolResult tr =>
    rw [ingest]
    dsimp only
    refine ⟨?_, ?_, rfl⟩
    · split
      · exact hbuf.trans (List.append_nil _).symm
      · exact hbuf.trans (List.append_nil _).symm
    · split
      · exact hflag
      · exact hflag
  | error err =>
    rw [ingest, herror err rfl]
    exact ⟨(List.append_nil _).symm, hfailed, rfl⟩
  | statusChange oldStatus newStatus =>
    cases hopens : (Feed.event (.statusChange oldStatus newStatus)).marks.opens with
    | true =>
      obtain ⟨rfl, rfl⟩ : oldStatus = .idle ∧ newStatus = .active := by
        cases oldStatus <;> cases newStatus <;> simp_all [Feed.marks]
      obtain ⟨hbuf', hflag'⟩ := @openTurn_keeps uuid s
      exact ⟨by rw [ingest]; exact hbuf'.trans (List.append_nil _).symm, hflag', rfl⟩
    | false =>
      have hsame : s.ingest uuid parseJson (.statusChange oldStatus newStatus) = (s, []) := by
        cases oldStatus <;> cases newStatus <;> simp_all [AcpEvent.cuts, Feed.marks, ingest]
      have hmarks : (Feed.event (.statusChange oldStatus newStatus)).marks.output = [] := by
        cases oldStatus <;> cases newStatus <;> rfl
      rw [hsame, hmarks]
      exact ⟨(List.append_nil _).symm, hfailed, rfl⟩
  | other => exact ⟨(List.append_nil _).symm, hfailed, rfl⟩

private theorem prose_concat (events : List (Bool × AcpEvent)) (watched : Bool) (event : AcpEvent) :
    prose (events ++ [(watched, event)]) =
      if (watched && event.cuts) = true then ((prose events).1 ++ [(prose events).2], [])
      else ((prose events).1, (prose events).2 ++ (Feed.event event).marks.output) := by
  simp only [prose, List.foldl_append, List.foldl_cons, List.foldl_nil]

/-- The aggregator has the same text pending as the loop. -/
private structure Mirrored (c : Collector) : Prop where
  replyBuf : ∀ agg ∈ c.aggregator, agg.replyBuf = c.live
  turnFailed : ∀ agg ∈ c.aggregator, agg.turnFailed = false

/-- What one event does to the text so far: it ends the run, or the run goes on. -/
private structure Absorbed (c c' : Collector) (event : AcpEvent) : Prop where
  mirrored : Mirrored c'
  absorbed : c'.absorbed = c.absorbed ++ [(c.aggregator.isSome, event)]
  cut : (c.aggregator.isSome && event.cuts) = true → c'.live = [] ∧
    (c'.segments = c.segments ++ [c.live] ∧ isAgentFacingStatusNotice c.live = false ∨
      c'.segments = c.segments ∧ spoken c.live = false)
  goesOn : (c.aggregator.isSome && event.cuts) = false →
    c'.live = c.live ++ (Feed.event event).marks.output ∧ c'.segments = c.segments

private theorem pushOutput_eq (live : Str) (event : AcpEvent) :
    Collector.pushOutput live event = live ++ (Feed.event event).marks.output := by
  cases event with
  | output text => rfl
  | statusChange oldStatus newStatus =>
    have hsaid : (Feed.event (.statusChange oldStatus newStatus)).marks.output = [] := by
      cases oldStatus <;> cases newStatus <;> rfl
    rw [hsaid, List.append_nil, Collector.pushOutput]
    simp
  | thinking text => exact (List.append_nil _).symm
  | toolUse tu => exact (List.append_nil _).symm
  | toolResult tr => exact (List.append_nil _).symm
  | error err => exact (List.append_nil _).symm
  | other => exact (List.append_nil _).symm

private theorem absorb_spec {c : Collector} (h : Mirrored c) {event : AcpEvent}
    (herror : ∀ err, event = .error err → classifyAcpError err = .sideChannel) :
    Absorbed c (c.absorb uuid parseJson event).1 event := by
  unfold Collector.absorb
  rw [pushOutput_eq]
  cases hagg : c.aggregator with
  | none => exact ⟨⟨by simp, by simp⟩, by simp [hagg], by simp [hagg], by simp [absorbEmitted]⟩
  | some agg =>
    have hfailed := h.turnFailed agg hagg
    have hbuf := h.replyBuf agg hagg
    obtain ⟨hsegments, hrest⟩ := absorbEmitted_eq (agg.ingest uuid parseJson event).2 c.segments
      (c.live ++ (Feed.event event).marks.output)
    dsimp only
    cases hcuts : event.cuts with
    | true =>
      obtain ⟨hnil, hflag, hcut⟩ := @ingest_cut uuid parseJson agg hfailed event hcuts
      have hsaid : (Feed.event event).marks.output = [] := by
        cases event with
        | toolUse tu => rfl
        | statusChange oldStatus newStatus => cases oldStatus <;> cases newStatus <;> rfl
        | thinking text => rfl
        | output text => cases hcuts
        | toolResult tr => rfl
        | error err => rfl
        | other => rfl
      rw [hsaid, List.append_nil] at hsegments hrest ⊢
      -- what was pending is flushed, so that both start afresh
      have hlive' : (absorbEmitted (agg.ingest uuid parseJson event).2 c.segments c.live).2.1 = [] := by
        rw [hrest]
        split_ifs with hreplies
        · by_contra hne
          exact hcut.flushed (by rw [hbuf]; exact hne) hreplies
        · rfl
      refine ⟨⟨?_, ?_⟩, by rw [hagg], fun _ => ⟨hlive', ?_⟩, by simp [hagg, hcuts]⟩
      · rintro _ ⟨⟩
        exact hnil.trans hlive'.symm
      · rintro _ ⟨⟩
        exact hflag
      · rw [hbuf] at hcut
        rcases hcut.kept with hkept | ⟨hkept, hspoken⟩
        · have hmem : c.live ∈ (replyContents (agg.ingest uuid parseJson event).2).filter kept := by
            rw [hkept]
            exact List.mem_singleton_self _
          have hnotice := (List.mem_filter.mp hmem).2
          simp only [kept, Bool.and_eq_true, Bool.not_eq_true'] at hnotice
          exact .inl ⟨by rw [hsegments, hkept], hnotice.2⟩
        · exact .inr ⟨by rw [hsegments, hkept, List.append_nil], hspoken⟩
    | false =>
      obtain ⟨hbuf', hflag, hreplies⟩ := @ingest_quiet uuid parseJson agg hfailed event hcuts herror
      rw [hreplies, List.filter_nil, List.append_nil] at hsegments
      rw [hreplies, if_pos rfl] at hrest
      refine ⟨⟨?_, ?_⟩, by rw [hagg], by simp [hagg, hcuts], fun _ => ⟨hrest, hsegments⟩⟩
      · rintro _ ⟨⟩
        rw [hbuf', hbuf]
        exact hrest.symm
      · rintro _ ⟨⟩
        exact hflag

/-- The reply so far stays the prose so far. -/
private theorem Absorbed.faithful {c c' : Collector} {event : AcpEvent} (h : Absorbed c c' event) (hc : c.Faithful) :
    c'.Faithful := by
  have hprose := prose_concat c.absorbed c.aggregator.isSome event
  rw [← h.absorbed] at hprose
  cases hcut : c.aggregator.isSome && event.cuts with
  | true =>
    rw [if_pos hcut] at hprose
    obtain ⟨hlive, hsegments⟩ := h.cut hcut
    rw [hc.live_eq] at hsegments
    rcases hsegments with ⟨hsegments, hnotice⟩ | ⟨hsegments, hspoken⟩
    · refine ⟨by rw [hlive, hprose], ?_, ?_, ?_⟩
      · rw [hsegments, hprose]
        exact hc.sublist.append_right _
      · rw [hsegments, hprose, List.filter_append, List.filter_append, hc.whole]
      · rw [hsegments]
        exact List.forall_mem_append.mpr ⟨hc.noNotice, List.forall_mem_singleton.mpr hnotice⟩
    · refine ⟨by rw [hlive, hprose], ?_, ?_, ?_⟩
      · rw [hsegments, hprose]
        exact hc.sublist.trans (List.sublist_append_left _ _)
      · rw [hsegments, hprose, List.filter_append, List.filter_singleton, hspoken, cond_false, List.append_nil,
          hc.whole]
      · rw [hsegments]
        exact hc.noNotice
  | false =>
    rw [if_neg (by rw [hcut]; exact Bool.false_ne_true)] at hprose
    obtain ⟨hlive, hsegments⟩ := h.goesOn hcut
    refine ⟨by rw [hlive, hprose, hc.live_eq], ?_, ?_, ?_⟩
    · rw [hsegments, hprose]
      exact hc.sublist
    · rw [hsegments, hprose]
      exact hc.whole
    · rw [hsegments]
      exact hc.noNotice

/-! ## The text grows -/

/-- What is not blank stays so with more text behind it. -/
private theorem trim_append_ne_nil {s : Str} (h : Str.trim s ≠ []) (t : Str) : Str.trim (s ++ t) ≠ [] := by
  have hex : ∃ c ∈ s, Str.isWhiteSpace c = false := by
    by_contra hall
    have hblank : s.rdropWhile Str.isWhiteSpace = [] := by
      refine List.rdropWhile_eq_nil_iff.mpr fun c hc => ?_
      by_contra hc'
      exact hall ⟨c, hc, Bool.not_eq_true _ ▸ hc'⟩
    exact h (by rw [Str.trim, hblank]; rfl)
  obtain ⟨c, hc, hspace⟩ := hex
  exact Str.trim_ne_nil (List.mem_append_left _ hc) hspace

private theorem intercalate_prefix (sep : Str) (l l' : List Str) :
    sep.intercalate l <+: sep.intercalate (l ++ l') := by
  by_cases hl : l = []
  · subst hl
    exact List.nil_prefix
  · by_cases hl' : l' = []
    · rw [hl', List.append_nil]
    · rw [Str.intercalate_append sep hl hl', List.append_assoc]
      exact List.prefix_append _ _

/-- More of the run. -/
private theorem composeReply_append (segments : List Str) (live more : Str) :
    composeReply segments live <+: composeReply segments (live ++ more) := by
  unfold composeReply
  by_cases hlive : Str.trim live = []
  · rw [if_pos hlive, List.append_nil]
    exact intercalate_prefix _ _ _
  · rw [if_neg hlive, if_neg (trim_append_ne_nil hlive more)]
    have hrun : ("\n\n".toList).intercalate [live] <+: ("\n\n".toList).intercalate [live ++ more] := by
      rw [List.intercalate_singleton, List.intercalate_singleton]
      exact List.prefix_append _ _
    by_cases hsegments : segments = []
    · subst hsegments
      exact hrun
    · rw [Str.intercalate_append _ hsegments (List.cons_ne_nil _ _),
        Str.intercalate_append _ hsegments (List.cons_ne_nil _ _)]
      exact (List.prefix_append_right_inj _).mpr hrun

/-- The run becomes a segment. -/
private theorem composeReply_segment (segments : List Str) (live : Str) :
    composeReply segments live <+: composeReply (segments ++ [live]) [] := by
  unfold composeReply
  rw [if_pos Str.trim_nil, List.append_nil]
  split_ifs
  · rw [List.append_nil]
    exact intercalate_prefix _ _ _
  · exact List.prefix_refl _

/-- Unless the run is a notice, the text only grows. -/
private theorem Absorbed.text_prefix {c c' : Collector} {event : AcpEvent} (h : Absorbed c c' event)
    (hnotice : isAgentFacingStatusNotice c.live = false ∨ (c.aggregator.isSome && event.cuts) = false) :
    c.text <+: c'.text := by
  unfold Collector.text
  cases hcut : c.aggregator.isSome && event.cuts with
  | true =>
    obtain ⟨hlive, ⟨hsegments, -⟩ | ⟨hsegments, hspoken⟩⟩ := h.cut hcut
    · rw [hlive, hsegments]
      exact composeReply_segment _ _
    · have hblank : Str.trim c.live = [] := by
        rw [hcut] at hnotice
        have := hnotice.resolve_right (by simp)
        simpa [spoken, this] using hspoken
      rw [hlive, hsegments, composeReply, composeReply, if_pos hblank, if_pos Str.trim_nil]
  | false =>
    obtain ⟨hlive, hsegments⟩ := h.goesOn hcut
    rw [hlive, hsegments]
    exact composeReply_append _ _ _

/-- Earlier runs stay. -/
private theorem Absorbed.runs_subset {c c' : Collector} {event : AcpEvent} (h : Absorbed c c' event) :
    (prose c.absorbed).1 ⊆ (prose c'.absorbed).1 := by
  rw [h.absorbed, prose_concat]
  split_ifs
  · exact List.subset_append_left _ _
  · exact fun _ => id

/-! ## The turn of a channel -/

/-- What the updates are to the text so far. -/
private structure Streamed (t : GatewayTurn) : Prop where
  updates : t.updates.Pairwise fun u v => u <+: v ∧ u ≠ v
  sent : ∀ u ∈ t.updates, u <+: t.sentUpdate
  text : t.sentUpdate <+: t.collector.text

/-- No run of prose that was cut is a notice. -/
private def Unnoticed (t : GatewayTurn) : Prop :=
  ∀ run ∈ (prose t.collector.absorbed).1, isAgentFacingStatusNotice run = false

private structure TurnInv (t : GatewayTurn) : Prop where
  mirrored : Mirrored t.collector
  reports : t.Reports
  streamed : Unnoticed t → Streamed t

/-- A step that leaves the text and the updates alone. -/
private theorem TurnInv.of_same {t t' : GatewayTurn} (h : TurnInv t) (hcollector : t'.collector = t.collector)
    (hsent : t'.sentUpdate = t.sentUpdate) (hupdates : t'.updates = t.updates)
    (hresult : ∀ text, t'.result = some (.ok text) → text = t.collector.text) : TurnInv t' := by
  refine ⟨by rw [hcollector]; exact h.mirrored, ⟨by rw [hcollector]; exact h.reports.collector, ?_⟩,
    fun hnotice => ?_⟩
  · rw [hcollector]
    exact hresult
  · rw [Unnoticed, hcollector] at hnotice
    obtain ⟨hup, hsnt, htext⟩ := h.streamed hnotice
    exact ⟨by rw [hupdates]; exact hup, by rw [hupdates, hsent]; exact hsnt, by rw [hsent, hcollector]; exact htext⟩

/-- A progress update. -/
private theorem TurnInv.update {t : GatewayTurn} (h : TurnInv t) (due room : Bool) :
    TurnInv (t.update due room) := by
  unfold GatewayTurn.update
  dsimp only
  split_ifs with hsend
  · refine ⟨h.mirrored, ⟨h.reports.collector, h.reports.reply⟩, fun hnotice => ?_⟩
    obtain ⟨hup, hsnt, htext⟩ := h.streamed hnotice
    have hnew : ∀ u ∈ t.updates, u <+: t.collector.text ∧ u ≠ t.collector.text := by
      intro u hu
      refine ⟨(hsnt u hu).trans htext, ?_⟩
      rintro rfl
      -- it would be the last update, which is not sent twice
      exact hsend.2.2.1 ((hsnt _ hu).eq_of_length_le htext.length_le)
    refine ⟨?_, ?_, List.prefix_refl _⟩
    · rw [List.pairwise_append]
      exact ⟨hup, List.pairwise_singleton _ _, fun u hu v hv => List.mem_singleton.mp hv ▸ hnew u hu⟩
    · refine List.forall_mem_append.mpr ⟨fun u hu => (hnew u hu).1, ?_⟩
      exact List.forall_mem_singleton.mpr (List.prefix_refl _)
  · exact h

/-- The event goes into the reply. -/
private theorem TurnInv.absorb {t : GatewayTurn} (h : TurnInv t) (hopen : t.result = none) {event : AcpEvent}
    (herror : ∀ err, event = .error err → classifyAcpError err = .sideChannel) (replyTo : Option Str)
    (currentCompletion due room : Bool) :
    TurnInv (t.absorb uuid parseJson event replyTo currentCompletion due room) := by
  unfold GatewayTurn.absorb
  have hspec := @absorb_spec uuid parseJson t.collector h.mirrored event herror
  generalize t.collector.absorb uuid parseJson event = r at hspec ⊢
  obtain ⟨collector, emitted, flushed⟩ := r
  dsimp only at hspec ⊢
  have hfaithful := hspec.faithful h.reports.collector
  -- the run that is cut is among the runs, so that it is no notice
  have hstreamed (hnotice : ∀ run ∈ (prose collector.absorbed).1, isAgentFacingStatusNotice run = false) :
      t.updates.Pairwise (fun u v => u <+: v ∧ u ≠ v) ∧ (∀ u ∈ t.updates, u <+: t.sentUpdate) ∧
        t.sentUpdate <+: collector.text := by
    obtain ⟨hup, hsnt, htext⟩ := h.streamed fun run hrun => hnotice run (hspec.runs_subset hrun)
    refine ⟨hup, hsnt, htext.trans (hspec.text_prefix ?_)⟩
    cases hcut : t.collector.aggregator.isSome && event.cuts with
    | false => exact .inr rfl
    | true =>
      refine .inl (hnotice _ ?_)
      rw [hspec.absorbed, prose_concat, if_pos hcut, h.reports.collector.live_eq]
      exact List.mem_append_right _ (List.mem_singleton_self _)
  split_ifs
  · refine ⟨hspec.mirrored, ⟨hfaithful, ?_⟩, fun hnotice => ?_⟩
    · rintro _ ⟨⟩
      rfl
    · obtain ⟨hup, hsnt, htext⟩ := hstreamed hnotice
      exact ⟨hup, hsnt, htext⟩
  · refine TurnInv.update ⟨hspec.mirrored, ⟨hfaithful, ?_⟩, fun hnotice => ?_⟩ _ _
    · intro text htext
      rw [hopen] at htext
      cases htext
    · obtain ⟨hup, hsnt, htext⟩ := hstreamed hnotice
      exact ⟨hup, hsnt, htext⟩

/-- One round of the loop. -/
private theorem TurnInv.receive {t : GatewayTurn} (h : TurnInv t) (hopen : t.result = none) (event : AcpEvent)
    (replyTo : Option Str) (due room : Bool) : TurnInv (t.receive uuid parseJson event replyTo due room) := by
  unfold GatewayTurn.receive
  dsimp only
  generalize hcurrent : decide (replyTo ∉ t.superseded) = currentCompletion
  generalize hseen : (if currentCompletion = true then { t with latestFrame := replyTo } else t) = seen
  have hseen' : TurnInv seen ∧ seen.result = none := by
    rw [← hseen]
    split_ifs
    · exact ⟨h.of_same rfl rfl rfl h.reports.reply, hopen⟩
    · exact ⟨h, hopen⟩
  obtain ⟨hinv, hopen⟩ := hseen'
  cases event with
  | error err =>
    dsimp only
    split_ifs
    · exact hinv
    · cases hkind : classifyAcpError err with
      | sideChannel =>
        have haction : gatewayErrorAction err seen.collector.segments seen.collector.live = .goOn := by
          rw [gatewayErrorAction, hkind]
        rw [haction]
        exact hinv.absorb hopen (fun _ heq => by cases heq; exact hkind) _ _ _ _
      | userAbort =>
        have haction : gatewayErrorAction err seen.collector.segments seen.collector.live =
            .fail (acpErrorDetails err) := by
          rw [gatewayErrorAction, hkind]
        rw [haction]
        exact hinv.of_same rfl rfl rfl (by simp)
      | turnFailure =>
        rw [gatewayErrorAction, hkind]
        dsimp only
        split_ifs
        · exact hinv.of_same rfl rfl rfl (by simp)
        · refine hinv.of_same rfl rfl rfl ?_
          rintro _ ⟨⟩
          rfl
  | thinking text => exact hinv.absorb hopen (by simp) _ _ _ _
  | output text => exact hinv.absorb hopen (by simp) _ _ _ _
  | toolUse tu => exact hinv.absorb hopen (by simp) _ _ _ _
  | toolResult tr => exact hinv.absorb hopen (by simp) _ _ _ _
  | statusChange oldStatus newStatus => exact hinv.absorb hopen (by simp) _ _ _ _
  | other => exact hinv.absorb hopen (by simp) _ _ _ _

/-- What was said so far, if it was anything. -/
private theorem salvageTimeoutReply_ok {segments : List Str} {live text : Str}
    (h : salvageTimeoutReply segments live = .ok text) : text = composeReply segments live := by
  unfold salvageTimeoutReply at h
  dsimp only at h
  split_ifs at h
  exact (Except.ok.inj h).symm

private theorem TurnInv.step {t : GatewayTurn} (h : TurnInv t) (i : TurnInput) :
    TurnInv (t.step uuid parseJson i) := by
  cases i with
  | frame event replyTo due room =>
    rw [GatewayTurn.step]
    split_ifs with hover
    · exact h
    · exact h.receive (by simpa using hover) event replyTo due room
  | channelClosed =>
    rw [GatewayTurn.step]
    split_ifs
    · exact h
    · unfold GatewayTurn.detach
      split
      · next reply hreply =>
        refine h.of_same rfl rfl rfl ?_
        rintro _ ⟨⟩
        exact salvageTimeoutReply_ok hreply
      · exact h.of_same rfl rfl rfl (by simp)
  | elapsed =>
    rw [GatewayTurn.step]
    split_ifs
    · exact h
    · refine h.of_same rfl rfl rfl fun text htext => ?_
      exact salvageTimeoutReply_ok (Option.some.inj htext)
  | close =>
    rw [GatewayTurn.step]
    split_ifs
    · exact h.of_same rfl rfl rfl h.reports.reply
    · exact h
  | append replyTo found sent =>
    rw [GatewayTurn.step]
    unfold GatewayTurn.append
    split_ifs
    · exact h
    · exact h.of_same rfl rfl rfl h.reports.reply
  | markIdleTimeoutDetach approvalPending =>
    refine ⟨⟨?_, ?_⟩, ⟨⟨h.reports.collector.live_eq, h.reports.collector.sublist, h.reports.collector.whole,
      h.reports.collector.noNotice⟩, h.reports.reply⟩, fun hnotice => ?_⟩
    · intro agg hagg
      obtain ⟨agg', hagg', rfl⟩ := Option.map_eq_some_iff.mp hagg
      exact (markActivity_keeps agg').1.trans (h.mirrored.replyBuf agg' hagg')
    · intro agg hagg
      obtain ⟨agg', hagg', rfl⟩ := Option.map_eq_some_iff.mp hagg
      exact (markActivity_keeps agg').2.trans (h.mirrored.turnFailed agg' hagg')
    · obtain ⟨hup, hsnt, htext⟩ := h.streamed hnotice
      exact ⟨hup, hsnt, htext⟩
  | removed =>
    refine ⟨⟨by rintro _ ⟨⟩, by rintro _ ⟨⟩⟩, ⟨⟨h.reports.collector.live_eq, h.reports.collector.sublist,
      h.reports.collector.whole, h.reports.collector.noNotice⟩, h.reports.reply⟩, fun hnotice => ?_⟩
    obtain ⟨hup, hsnt, htext⟩ := h.streamed hnotice
    exact ⟨hup, hsnt, htext⟩

private theorem turnInv_run {agg : TurnAggregator} (hagg : agg.BetweenTurns) (is : List TurnInput) :
    TurnInv ((gatewayTurn uuid parseJson agg).run is) := by
  have hinit : TurnInv (gatewayTurn uuid parseJson agg).init := by
    refine ⟨⟨?_, ?_⟩, ⟨⟨rfl, List.Sublist.slnil, rfl, by rintro _ ⟨⟩⟩, by rintro _ ⟨⟩⟩, fun _ => ?_⟩
    · rintro _ ⟨⟩
      exact hagg.replyBuf
    · rintro _ ⟨⟩
      exact hagg.turnFailed
    · exact ⟨.nil, by rintro _ ⟨⟩, List.nil_prefix⟩
  exact Machine.invariant_runFrom (I := TurnInv) (fun _ i h _ => h.step i) hinit (Machine.steps_true _ _ is)

/-- The reply of a channel is the prose of its turn, whatever supplements, marks and removals come in between. -/
theorem reply_is_prose (uuid : Nat → Str) (parseJson : Str → Option ParsedSessionAttach) (agg : TurnAggregator)
    (hagg : agg.BetweenTurns) (is : List TurnInput) : ((gatewayTurn uuid parseJson agg).run is).Reports :=
  (turnInv_run hagg is).reports

theorem reply_is_prose_cut :
    ((gatewayTurn (fun _ => []) (fun _ => none) {}).run
      [.frame (.output ['a']) none false true,
        .frame (.toolUse { toolId := ['1'], toolName := ['t'] }) none false true, .frame (.output ['b']) none false true,
        .frame (.statusChange .active .idle) none false true]).Reports :=
  reply_is_prose (fun _ => []) (fun _ => none) {} ⟨rfl, rfl⟩ _

/-- The updates of a turn add up to its reply. -/
theorem updates_grow (uuid : Nat → Str) (parseJson : Str → Option ParsedSessionAttach) (agg : TurnAggregator)
    (hagg : agg.BetweenTurns) (is : List TurnInput)
    (hnotice : ∀ run ∈ (prose ((gatewayTurn uuid parseJson agg).run is).collector.absorbed).1,
      isAgentFacingStatusNotice run = false) : ((gatewayTurn uuid parseJson agg).run is).Grows := by
  obtain ⟨-, hreports, hstreamed⟩ := @turnInv_run uuid parseJson agg hagg is
  obtain ⟨hup, hsnt, htext⟩ := hstreamed hnotice
  refine ⟨hup, fun u hu text hend => ?_⟩
  rw [hreports.reply text hend]
  exact (hsnt u hu).trans htext

theorem updates_grow_cut :
    ((gatewayTurn (fun _ => []) (fun _ => none) {}).run
      [.frame (.output ['a']) none true true,
        .frame (.toolUse { toolId := ['1'], toolName := ['t'] }) none false true,
        .frame (.output ['b']) none true true]).Grows :=
  updates_grow (fun _ => []) (fun _ => none) {} ⟨rfl, rfl⟩ _ (by decide)

/-! ## The turn of a scheduled job -/

/-- Both turns have heard the same. -/
private structure Agrees (g : GatewayTurn) (t : CronTurn) : Prop where
  collector : g.collector = t.collector
  superseded : g.superseded = []
  said : g.said = t.said

private theorem Agrees.isSome {g : GatewayTurn} {t : CronTurn} (h : Agrees g t) :
    g.result.isSome = t.result.isSome := by
  have hsaid := congrArg Option.isSome h.said
  rwa [GatewayTurn.said, CronTurn.said, Option.isSome_map, Option.isSome_map] at hsaid

private theorem update_keeps (g : GatewayTurn) (due room : Bool) :
    (g.update due room).collector = g.collector ∧ (g.update due room).superseded = g.superseded ∧
      (g.update due room).result = g.result := by
  unfold GatewayTurn.update
  dsimp only
  split_ifs
  · exact ⟨rfl, rfl, rfl⟩
  · exact ⟨rfl, rfl, rfl⟩

private theorem Agrees.absorb {g : GatewayTurn} {t : CronTurn} (h : Agrees g t) (event : AcpEvent)
    (replyTo : Option Str) (due room : Bool) :
    Agrees (g.absorb uuid parseJson event replyTo true due room) (t.absorb uuid parseJson event) := by
  unfold GatewayTurn.absorb CronTurn.absorb
  rw [h.collector]
  generalize t.collector.absorb uuid parseJson event = r
  obtain ⟨collector, emitted, flushed⟩ := r
  dsimp only
  by_cases hend : event = .statusChange .active .idle
  · rw [if_pos ⟨hend, rfl⟩, if_pos hend]
    exact ⟨rfl, h.superseded, rfl⟩
  · rw [if_neg fun h => hend h.1, if_neg hend]
    obtain ⟨hcollector, hsuperseded, hresult⟩ := update_keeps { g with collector } (flushed || due) room
    refine ⟨hcollector, hsuperseded.trans h.superseded, ?_⟩
    rw [GatewayTurn.said, hresult]
    exact h.said

/-- The two ways to end with what was said so far. -/
private theorem salvage_said (t : CronTurn) (timedOut : Bool) :
    (salvageTimeoutReply t.collector.segments t.collector.live).toOption =
      (t.salvage timedOut).toOption.map (·.reply.content) := by
  unfold CronTurn.salvage salvageTimeoutReply salvageTimeoutEmitted
  dsimp only
  split_ifs
  · rfl
  · rfl

/-- An error of the model ends a turn with what was said so far, if it was anything. -/
private theorem salvage_of_returnReply {err : AcpError} {segments : List Str} {live reply : Str}
    (h : gatewayErrorAction err segments live = .returnReply reply) :
    salvageTimeoutReply segments live = .ok reply := by
  unfold gatewayErrorAction at h
  split at h
  · cases h
  · cases h
  · dsimp only at h
    split_ifs at h with hblank
    cases h
    exact if_neg hblank

private theorem Agrees.receive {g : GatewayTurn} {t : CronTurn} (h : Agrees g t) (event : AcpEvent)
    (replyTo : Option Str) (due room : Bool) :
    Agrees (g.receive uuid parseJson event replyTo due room) (t.receive uuid parseJson event) := by
  unfold GatewayTurn.receive CronTurn.receive
  have hcurrent : decide (replyTo ∉ g.superseded) = true := by
    rw [h.superseded]
    exact decide_eq_true List.not_mem_nil
  rw [hcurrent]
  have hseen : Agrees { g with latestFrame := replyTo } t := ⟨h.collector, h.superseded, h.said⟩
  dsimp only
  rw [if_pos rfl]
  generalize ({ g with latestFrame := replyTo } : GatewayTurn) = seen at hseen ⊢
  cases event with
  | error err =>
    dsimp only
    rw [if_neg (by simp), hseen.collector]
    split
    · exact hseen.absorb _ _ _ _
    · next reply haction =>
      have hsalvage := salvage_said t false
      rw [salvage_of_returnReply haction] at hsalvage
      exact ⟨rfl, hseen.superseded, congrArg some hsalvage⟩
    · exact ⟨rfl, hseen.superseded, rfl⟩
  | thinking text => exact hseen.absorb _ _ _ _
  | output text => exact hseen.absorb _ _ _ _
  | toolUse tu => exact hseen.absorb _ _ _ _
  | toolResult tr => exact hseen.absorb _ _ _ _
  | statusChange oldStatus newStatus => exact hseen.absorb _ _ _ _
  | other => exact hseen.absorb _ _ _ _

private theorem Agrees.salvage {g : GatewayTurn} {t : CronTurn} (h : Agrees g t) (timedOut : Bool) :
    (salvageTimeoutReply g.collector.segments g.collector.live).toOption =
      (t.salvage timedOut).toOption.map (·.reply.content) := by
  rw [h.collector]
  exact salvage_said t timedOut

/-- Without supplements a step of the one is a step of the other, or nothing. -/
private theorem Agrees.step {g : GatewayTurn} {t : CronTurn} (h : Agrees g t) {i : TurnInput}
    (happend : i.appends = false) :
    Agrees (g.step uuid parseJson i) ((i.scheduled.toList).foldl (CronTurn.step uuid parseJson) t) := by
  cases i with
  | frame event replyTo due room =>
    change Agrees (g.step uuid parseJson (.frame event replyTo due room)) (t.step uuid parseJson (.frame event))
    rw [GatewayTurn.step, CronTurn.step, h.isSome]
    split_ifs
    · exact h
    · exact h.receive event replyTo due room
  | channelClosed =>
    change Agrees (g.step uuid parseJson .channelClosed) (t.step uuid parseJson .channelClosed)
    rw [GatewayTurn.step, CronTurn.step, h.isSome]
    split_ifs
    · exact h
    · have hsalvage := h.salvage false
      unfold GatewayTurn.detach CronTurn.detach
      cases hreply : salvageTimeoutReply g.collector.segments g.collector.live with
      | ok reply =>
        cases houtcome : t.salvage false with
        | ok outcome =>
          rw [hreply, houtcome] at hsalvage
          exact ⟨h.collector, h.superseded, congrArg some hsalvage⟩
        | error e =>
          rw [hreply, houtcome] at hsalvage
          cases hsalvage
      | error e =>
        cases houtcome : t.salvage false with
        | ok outcome =>
          rw [hreply, houtcome] at hsalvage
          cases hsalvage
        | error e' => exact ⟨h.collector, h.superseded, rfl⟩
  | elapsed =>
    change Agrees (g.step uuid parseJson .elapsed) (t.step uuid parseJson .elapsed)
    rw [GatewayTurn.step, CronTurn.step, h.isSome]
    split_ifs
    · exact h
    · exact ⟨h.collector, h.superseded, congrArg some (h.salvage true)⟩
  | close =>
    change Agrees (g.step uuid parseJson .close) t
    rw [GatewayTurn.step]
    split_ifs
    · exact ⟨h.collector, h.superseded, h.said⟩
    · exact h
  | append replyTo found sent => cases happend
  | markIdleTimeoutDetach approvalPending =>
    exact ⟨congrArg (fun c => Collector.mark uuid c approvalPending) h.collector, h.superseded, h.said⟩
  | removed => exact ⟨congrArg (fun c => { c with aggregator := none }) h.collector, h.superseded, h.said⟩

/-- A turn without supplements ends for a channel as it ends for a scheduled job. -/
theorem cron_agrees (uuid : Nat → Str) (parseJson : Str → Option ParsedSessionAttach) (agg : TurnAggregator)
    (is : List TurnInput) (hsupplements : ∀ i ∈ is, i.appends = false) :
    ((gatewayTurn uuid parseJson agg).run is).said =
      ((cronTurn uuid parseJson agg).run (is.filterMap TurnInput.scheduled)).said := by
  have hrun (g : GatewayTurn) (t : CronTurn) (h : Agrees g t) :
      Agrees ((gatewayTurn uuid parseJson agg).runFrom g is)
        ((cronTurn uuid parseJson agg).runFrom t (is.filterMap TurnInput.scheduled)) := by
    induction is generalizing g t with
    | nil => exact h
    | cons i is ih =>
      obtain ⟨hi, his⟩ := List.forall_mem_cons.mp hsupplements
      have hstep := @Agrees.step uuid parseJson g t h i hi
      rw [Machine.runFrom_cons]
      cases hscheduled : i.scheduled with
      | none =>
        rw [hscheduled] at hstep
        rw [List.filterMap_cons_none hscheduled]
        exact ih his _ _ hstep
      | some j =>
        rw [hscheduled] at hstep
        rw [List.filterMap_cons_some hscheduled, Machine.runFrom_cons]
        exact ih his _ _ hstep
  exact (hrun _ _ ⟨rfl, rfl, rfl⟩).said

theorem cron_agrees_detached :
    ((gatewayTurn (fun _ => []) (fun _ => none) {}).run
      [.frame (.output ['a']) none true true, .markIdleTimeoutDetach false, .channelClosed]).said =
      ((cronTurn (fun _ => []) (fun _ => none) {}).run
        [.frame (.output ['a']), .markIdleTimeoutDetach false, .channelClosed]).said :=
  cron_agrees (fun _ => []) (fun _ => none) {}
    [.frame (.output ['a']) none true true, .markIdleTimeoutDetach false, .channelClosed]
    (by simp [TurnInput.appends])

end TeamClu.Runtime
