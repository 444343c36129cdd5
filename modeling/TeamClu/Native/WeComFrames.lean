import TeamClu.ForStd.JsonText
import TeamClu.ForStd.Machine
import TeamClu.Native.WeComSegments

/-!
# The stream bubble of a WeCom reply

The frames of `crates/teamclu-gateway/src/wecom_delivery.rs` and the driver of
`crates/teamclu-gateway/src/wecom.rs` that sends them: `add_step`, `set_waiting`, `piggyback_notice`,
`refresh_progress` and the last `update` of one reply.

While a turn runs the bubble is an open `<think>` block; the frame that finishes it closes the block and has
the answer below it.  A run has the operations on one reply in any order.  An operation that awaits the ack
of a frame is two inputs, with others in between: `refresh` and `closed`, `finish` and `finished`.  An answer
that comes in messages of its own awaits each of them: `sent`.  The pacer may drop a progress frame; `frames`
are those that it is given.
-/

namespace TeamClu.WeCom

/-! ## `wecom_delivery.rs` -/

/-- `WECOM_CONTENT_MAX_BYTES`. -/
def WECOM_CONTENT_MAX_BYTES : Nat := 20480

/-- `MARKDOWN_SEGMENT_MAX_BYTES`. -/
def MARKDOWN_SEGMENT_MAX_BYTES : Nat := 8192

/-- `FALLBACK_SEE_SESSION`. -/
def FALLBACK_SEE_SESSION : Str := "答案生成完毕但推送失败，请在会话中查看".toList

/-- `MAX_PROGRESS_STEPS`. -/
def MAX_PROGRESS_STEPS : Nat := 30

/-- `MAX_STEP_CHARS`. -/
def MAX_STEP_CHARS : Nat := 120

/-- `PROGRESS_HEAD`. -/
def PROGRESS_HEAD : Str := "💭 执行中".toList

/-- `rest.starts_with(pattern)` of the text in lower case. -/
def startsLower (pattern : String) (rest : Str) : Bool :=
  pattern.toList.isPrefixOf (rest.map Char.toLower)

/-- `escape_think_tags`: a zero-width space behind the `<` or the `</` of each tag. -/
def escapeThinkTags : Str → Str
  | [] => []
  | c :: rest =>
    if c = '<' ∧ startsLower "think>" rest then c :: '\u200b' :: escapeThinkTags rest
    else if c = '<' ∧ startsLower "/think>" rest then
      match rest with
      | [] => [c]
      | slash :: rest => c :: slash :: '\u200b' :: escapeThinkTags rest
    else c :: escapeThinkTags rest

/-- `format_elapsed`, of the whole seconds of a duration. -/
def formatElapsed (secs : UInt64) : Str :=
  let m := secs.toNat / 60
  let s := secs.toNat % 60
  if m = 0 then JsonText.natText s ++ ['秒']
  else JsonText.natText m ++ '分' :: JsonText.natText s ++ ['秒']

/-- `progress_frame`. -/
def progressFrame (elapsed : UInt64) : Str := PROGRESS_HEAD ++ " · ".toList ++ formatElapsed elapsed

/-- `recent_steps`. -/
def recentSteps (steps : List Str) : List Str := steps.drop (steps.length - MAX_PROGRESS_STEPS)

/-- A line, if it is not blank. -/
def nonBlank (line : Option Str) : List Str := (line.filter fun s => Str.trim s ≠ []).toList

/-- `lines.join("\n")`. -/
def joinLines (lines : List Str) : Str := ['\n'].intercalate lines

/-- `progress_think_frame`. -/
def progressThinkFrame (steps : List Str) (elapsed : UInt64) (notice waiting : Option Str) : Str :=
  "<think>".toList ++
    joinLines (recentSteps steps ++ nonBlank waiting ++ [progressFrame elapsed] ++ nonBlank notice)

/-- A closed block with `lines`, and `body` below it. -/
def closedBlock (lines : List Str) (body : Str) : Str :=
  "<think>".toList ++ joinLines lines ++ "</think>\n\n".toList ++ body

/-- `think_closed_with`. -/
def thinkClosedWith (steps : List Str) (closingLine body : Str) : Str :=
  let full := closedBlock (recentSteps steps ++ [closingLine]) body
  if Str.utf8Len full ≤ WECOM_CONTENT_MAX_BYTES then full else closedBlock [closingLine] body

/-- `elapsed_closing_line`. -/
def elapsedClosingLine (elapsed : UInt64) : Str := "✅ 用时 ".toList ++ formatElapsed elapsed

/-- `step.split_whitespace().collect::<Vec<_>>().join(" ")`. -/
def flatten (step : Str) : Str := [' '].intercalate ((step.splitOnP Str.isWhiteSpace).filter (· ≠ []))

/-- `progress_step_line`. -/
def progressStepLine (step : Str) : Option Str :=
  let flat := flatten step
  if flat = [] then none
  else
    let bounded := if MAX_STEP_CHARS < flat.length then flat.take MAX_STEP_CHARS ++ ['…'] else flat
    some (escapeThinkTags bounded)

/-- `still_running_close_text`. -/
def stillRunningCloseText (elapsed : UInt64) : Str :=
  "⏳ 任务仍在执行（已 ".toList ++ JsonText.natText (max ((elapsed.toNat + 59) / 60) 1) ++
    " 分钟），完成后将单独推送结果".toList

/-- `still_running_close_with_notice`. -/
def stillRunningCloseWithNotice (elapsed : UInt64) (notice : Option Str) : Str :=
  match nonBlank notice with
  | n :: _ => stillRunningCloseText elapsed ++ "\n\n".toList ++ n
  | [] => stillRunningCloseText elapsed

/-! ## `wecom.rs` -/

/-- `TurnEnd`. -/
inductive TurnEnd
  | answered | noAnswer
  deriving DecidableEq, Repr

/-- `PROGRESS_DONE`. -/
def PROGRESS_DONE : Str := "✅ 已完成".toList

/-- `PROGRESS_CANCELLED`. -/
def PROGRESS_CANCELLED : Str := "⏹️ 已取消".toList

/-- `chars_at_most`. -/
def charsAtMost (text : Str) (max : Nat) : Str :=
  if text.length ≤ max then text else text.take (max - 1) ++ ['…']

/-- `text.lines().next()`. -/
def firstLine (text : Str) : Str :=
  let line := text.takeWhile (· ≠ '\n')
  if line.length < text.length ∧ line.getLast? = some '\r' then line.dropLast else line

/-- `waiting_line`. -/
def waitingLine (title prompt : Str) : Str :=
  escapeThinkTags ("⏸ ".toList ++ title ++ "：".toList ++ charsAtMost (firstLine prompt) 60 ++
    "（见下方卡片）".toList)

/-- `truncate_wecom_content`. -/
def truncateWecomContent (text : Str) : Str :=
  if Str.utf8Len text ≤ WECOM_CONTENT_MAX_BYTES then text
  else (Str.sliceTo text (boundaryBefore text WECOM_CONTENT_MAX_BYTES)).getD []

/-- The body of an answer. -/
def answerBody (text : Str) : Str :=
  if Str.trim text = [] then PROGRESS_DONE else escapeThinkTags (Str.trim text)

/-- `stream_finish_content`. -/
def streamFinishContent (turnEnd : TurnEnd) (text : Str) (steps : List Str) (elapsed : UInt64) : Str :=
  truncateWecomContent <|
    match turnEnd with
    | .noAnswer =>
      thinkClosedWith steps ("⏹️ 已停止 · ".toList ++ formatElapsed elapsed) PROGRESS_CANCELLED
    | .answered => thinkClosedWith steps (elapsedClosingLine elapsed) (answerBody text)

/-- `InFlightReply`; times are in milliseconds. -/
structure InFlightReply where
  openedAt : Nat
  deadline : Nat
  streamClosed : Bool := false
  pendingNotice : Option Str := none
  steps : List Str := []
  waiting : Option Str := none
  deriving DecidableEq

/-- `opened_at.elapsed().as_secs()`. -/
def InFlightReply.elapsed (r : InFlightReply) (now : Nat) : UInt64 := UInt64.ofNat ((now - r.openedAt) / 1000)

/-- What is sent to the chat: a frame of the stream, or a message of its own. -/
inductive Frame
  | stream (content : Str) (finish : Bool)
  | markdown (text : Str)
  deriving DecidableEq

/-- One reply: its entry in `pacers`, the closing and finishing frames that wait for their acks, for each
    follow-up that waits for a segment those that are still to come, and the frames so far. -/
structure Bubble where
  reply : Option InFlightReply
  closing : Nat := 0
  finishing : List Str := []
  followups : List (List Str) := []
  frames : List Frame := []
  deriving DecidableEq

/-- An operation on the reply, at the time `now`, or what comes of a frame. -/
inductive BubbleInput
  | addStep (step : Str) (now : Nat)
  | setWaiting (question : Option (Str × Str)) (now : Nat)
  | piggybackNotice (text : Str) (now : Nat)
  | refresh (now : Nat)
  | closed
  | finish (turnEnd : TurnEnd) (text : Str) (now : Nat)
  | finished (acked : Bool)
  | sent (i : Nat) (ok : Bool)
  deriving DecidableEq

/-- `refresh_progress`, to its await. -/
def refreshProgress (b : Bubble) (now : Nat) : Bubble :=
  match b.reply with
  | none => b
  | some r =>
    -- `decide_progress`
    if r.streamClosed then b
    else if r.deadline ≤ now then
      let closing := thinkClosedWith r.steps ("⏳ 已用时 ".toList ++ formatElapsed (r.elapsed now))
        (stillRunningCloseWithNotice (r.elapsed now) r.pendingNotice)
      { b with closing := b.closing + 1, frames := b.frames ++ [.stream closing true] }
    else
      let frame := progressThinkFrame r.steps (r.elapsed now) r.pendingNotice r.waiting
      { b with frames := b.frames ++ [.stream frame false] }

/-- A change of an open reply, and a refresh. -/
def changeOpen (b : Bubble) (f : InFlightReply → InFlightReply) (now : Nat) : Bubble :=
  match b.reply with
  | some r => if r.streamClosed then b else refreshProgress { b with reply := some (f r) } now
  | none => b

/-- The loop of `send_markdown_segments`, to its next await. -/
def sendSegment (b : Bubble) : List Str → Bubble
  | [] => b
  | segment :: rest => { b with followups := b.followups ++ [rest], frames := b.frames ++ [.markdown segment] }

/-- `send_answer_followup`, to its first await. -/
def sendAnswerFollowup (b : Bubble) (text : Str) : Bubble :=
  sendSegment b ((splitMarkdownSegments (escapeThinkTags text) MARKDOWN_SEGMENT_MAX_BYTES).getD [])

/-- A follow-up after the await of a segment: the next segment, or the fallback notice. -/
def segmentSent (b : Bubble) (i : Nat) (ok : Bool) : Bubble :=
  match b.followups[i]? with
  | none => b
  | some rest =>
    let b := { b with followups := b.followups.eraseIdx i }
    if ok then sendSegment b rest else { b with frames := b.frames ++ [.markdown FALLBACK_SEE_SESSION] }

/-- The last `update`, to its await. -/
def finishReply (b : Bubble) (turnEnd : TurnEnd) (text : Str) (now : Nat) : Bubble :=
  match b.reply with
  | none => b
  | some r =>
    -- `decide_finish`
    if r.streamClosed then
      let b := { b with reply := none }
      match turnEnd with
      | .noAnswer => { b with frames := b.frames ++ [.markdown PROGRESS_CANCELLED] }
      | .answered => if Str.trim text = [] then b else sendAnswerFollowup b text
    else
      let closing := streamFinishContent turnEnd text r.steps (r.elapsed now)
      { b with finishing := b.finishing ++ [text], frames := b.frames ++ [.stream closing true] }

/-- One operation. -/
def Bubble.step (b : Bubble) : BubbleInput → Bubble
  | .addStep step now =>
    match progressStepLine step with
    | none => b
    | some line =>
      if (b.reply.bind fun r => r.steps.getLast?) = some line then b
      else changeOpen b (fun r => { r with steps := r.steps ++ [line], waiting := none }) now
  | .setWaiting question now =>
    changeOpen b (fun r => { r with waiting := question.map fun q => waitingLine q.1 q.2 }) now
  | .piggybackNotice text now =>
    changeOpen b (fun r => { r with pendingNotice := some (escapeThinkTags text) }) now
  | .refresh now => refreshProgress b now
  | .closed =>
    if b.closing = 0 then b
    else { b with closing := b.closing - 1, reply := b.reply.map fun r => { r with streamClosed := true } }
  | .finish turnEnd text now => finishReply b turnEnd text now
  | .finished acked =>
    match b.finishing with
    | [] => b
    | text :: rest =>
      let b := { b with reply := none, finishing := rest }
      if acked ∨ Str.trim text = [] then b else sendAnswerFollowup b text
  | .sent i ok => segmentSent b i ok

/-- The frame that opens the bubble. -/
def firstFrame : Frame := .stream (progressThinkFrame [] 0 none none) false

/-- One reply, from the frame that opens its bubble. -/
def bubble (openedAt deadline : Nat) : Machine Bubble BubbleInput where
  init := { reply := some { openedAt, deadline }, frames := [firstFrame] }
  step := Bubble.step

end TeamClu.WeCom
