import TeamClu.ForStd.Text

/-!
# Streamed SeaTalk replies

`crates/teamclu-gateway/src/seatalk_stream.rs`: `show_preview`, `show_final`, `publish` and the frames they
send.  The frame limit is a parameter, and so are the answers of SeaTalk: `answers n` is what the `n`-th
call of the reply returns, an error or the ids in the response.

`Thread` is what the reply put into the thread: an update replaces the open message, `finish` closes it and
`init` opens the next.  A call that fails shows nothing.  The placeholder, "Thinking", is not part of the
reply.  The keepalive, which sends the open snapshot once more, is left out.
-/

namespace TeamClu.SeaTalk

/-! ## Frames -/

/-- `Frame`. -/
inductive Frame
  /-- Replace the open stream.  `finish` closes it. -/
  | update (text : Str) (finish : Bool)
  /-- Open the next stream. -/
  | init (text : Str)
  deriving DecidableEq

/-- The text of a frame. -/
def Frame.text : Frame → Str
  | .update text _ => text
  | .init text => text

/-- `Plan`. -/
structure Plan where
  frames : List Frame
  closed : Nat
  snapshot : Str
  deriving DecidableEq

/-- The loop of `split_at`: `current` is the text from `start` on. -/
def splitLoop (limit count : Nat) (current : Str) : Str → List Str
  | [] => if current = [] then [] else [current]
  | c :: cs =>
    if count > 0 ∧ count % limit = 0 then current :: splitLoop limit (count + 1) [c] cs
    else splitLoop limit (count + 1) (current ++ [c]) cs

/-- `split_at`. -/
def splitAt (text : Str) (limit : Nat) : List Str :=
  if limit = 0 then [text] else splitLoop limit 0 [] text

/-- The loop of `frames_for` and what follows it, over the chunks from `closed` on. -/
def framesFrom (finish : Bool) (closed : Nat) (snapshot : Str) : List Str → Plan
  | [] => { frames := [], closed, snapshot }
  | [current] =>
    { frames := if current ≠ snapshot ∨ finish = true then [.update current finish] else []
      closed := if finish = true then closed + 1 else closed
      snapshot := current }
  | chunk :: next :: rest =>
    let plan := framesFrom finish (closed + 1) next (next :: rest)
    { plan with frames := .update chunk true :: .init next :: plan.frames }

/-- `frames_for`. -/
def framesFor (closed : Nat) (snapshot text : Str) (finish : Bool) (limit : Nat) : Plan :=
  let chunks := splitAt text limit
  if chunks = [] then { frames := [], closed, snapshot }
  else
    let closed := min closed chunks.length
    if chunks.length ≤ closed then
      if text ≠ snapshot ∨ finish = true then
        { frames := [.update text finish], closed, snapshot := text }
      else { frames := [], closed, snapshot }
    else framesFrom finish closed snapshot (chunks.drop closed)

/-! ## What is on screen -/

/-- `Visible`: the reply on screen, as the worker remembers it. -/
structure Visible where
  closed : Str
  opened : Str
  deriving DecidableEq

/-- `Visible::from_shown`. -/
def Visible.fromShown (shown snapshot : Str) : Visible :=
  if shown = [] then { closed := [], opened := [] }
  else if snapshot.isSuffixOf shown then
    { closed := shown.take (shown.length - snapshot.length), opened := snapshot }
  else { closed := [], opened := shown }

/-- `Visible::full`. -/
def Visible.full (visible : Visible) : Str := visible.closed ++ visible.opened

/-- `Visible::apply`. -/
def Visible.apply (visible : Visible) : Frame → Visible
  | .update text true => { closed := visible.closed ++ text, opened := [] }
  | .update text false => { visible with opened := text }
  | .init text => { visible with opened := text }

/-- The thread of the reply, and what was sent to it. -/
structure Thread where
  /-- The messages of the reply that are closed. -/
  messages : List Str := []
  /-- The message of the open stream, once it holds reply text. -/
  opened : Option Str := none
  /-- The texts of the frames sent, also of those that failed. -/
  frames : List Str := []
  /-- The plain texts sent. -/
  plain : List Str := []
  /-- The calls made. -/
  calls : Nat := 0
  deriving DecidableEq

/-- The messages of the reply, joined. -/
def Thread.visible (thread : Thread) : Str := thread.messages.flatten ++ thread.opened.getD []

/-- A call that sends a frame. -/
def Thread.send (thread : Thread) (frame : Frame) : Thread :=
  { thread with frames := thread.frames ++ [frame.text], calls := thread.calls + 1 }

/-- A frame that arrived. -/
def Thread.apply (thread : Thread) : Frame → Thread
  | .update text true => { thread with messages := thread.messages ++ [text], opened := none }
  | .update text false => { thread with opened := some text }
  | .init text =>
    { thread with messages := thread.messages ++ thread.opened.toList, opened := some text }

/-! ## The worker -/

/-- `Stream`. -/
structure Stream where
  id : Str
  seq : Nat
  deriving DecidableEq

/-- `Live`. -/
structure Live where
  stream : Option Stream
  /-- Leading slices already closed. -/
  closed : Nat
  /-- The text on the open stream. -/
  snapshot : Str
  /-- The reply already on screen; the placeholder does not count. -/
  shown : Str
  broken : Bool
  /-- The ids of the messages of the reply. -/
  replyIds : List Str
  deriving DecidableEq

/-- What the `n`-th call returns: an error, or the ids in the response. -/
abbrev Answers := Nat → Except Str (List Str)

/-- `note_finish_id`. -/
def noteFinishId (ids : List Str) (id : Option Str) (finish : Bool) : List Str :=
  match id with
  | some id => if finish = true ∧ id ∉ ids then ids ++ [id] else ids
  | none => ids

/-- `remember_partial`. -/
def rememberPartial (live : Live) (visible : Visible) (advanced : Bool) : Live :=
  if advanced then { live with stream := none, shown := visible.full, snapshot := visible.opened }
  else { live with stream := none }

/-- The loop of `publish` over the frames. -/
def sendFrames (answers : Answers) :
    List Frame → Option Stream → Visible → Bool → Live → Thread →
      Except Str (Option Stream) × Live × Thread
  | [], stream, _, _, live, thread => (.ok stream, live, thread)
  | .update chunk finish :: frames, stream, visible, advanced, live, thread =>
    match stream with
    | none => (.error "SeaTalk reply stream unavailable".toList, live, thread)
    | some active =>
      let frame := Frame.update chunk finish
      let sent := thread.send frame
      match answers thread.calls with
      | .error error => (.error error, rememberPartial live visible advanced, sent)
      | .ok ids =>
        sendFrames answers frames (if finish then none else some { active with seq := active.seq + 1 })
          (visible.apply frame) true
          { live with replyIds := noteFinishId live.replyIds ids.head? finish } (sent.apply frame)
  | .init chunk :: frames, _, visible, advanced, live, thread =>
    let frame := Frame.init chunk
    let sent := thread.send frame
    match answers thread.calls with
    | .error error => (.error error, rememberPartial live visible advanced, sent)
    | .ok [] =>
      (.error "SeaTalk init_stream returned no stream_id".toList,
        rememberPartial live visible advanced, sent)
    | .ok (id :: _) =>
      sendFrames answers frames (some { id, seq := 0 }) (visible.apply frame) true live
        (sent.apply frame)

/-- `publish`. -/
def publish (answers : Answers) (limit : Nat) (live : Live) (thread : Thread) (text : Str)
    (finish : Bool) : Except Str Unit × Live × Thread :=
  let plan := framesFor live.closed live.snapshot text finish limit
  match sendFrames answers plan.frames live.stream (Visible.fromShown live.shown live.snapshot) false
      { live with stream := none } thread with
  | (.error error, live, thread) => (.error error, live, thread)
  | (.ok stream, live, thread) =>
    (.ok (), { live with stream, closed := plan.closed, snapshot := plan.snapshot, shown := text }, thread)

/-- `text.trim().is_empty()`. -/
def isBlank (text : Str) : Bool := (Str.trim text).isEmpty

/-- The previews that `show_preview` passes over. -/
def skips (live : Live) (text : Str) : Bool := live.broken || isBlank text || text == live.snapshot

/-- `show_preview`. -/
def showPreview (answers : Answers) (limit : Nat) (reply : Live × Thread) (text : Str) :
    Live × Thread :=
  if skips reply.1 text then reply
  else
    match publish answers limit reply.1 reply.2 text false with
    | (.ok (), live, thread) => (live, thread)
    | (.error _, live, thread) => ({ live with stream := none, broken := true }, thread)

/-- `shared_prefix_len`, counted in characters. -/
def sharedLen : Str → Str → Nat
  | a :: left, b :: right => if a = b then sharedLen left right + 1 else 0
  | _, _ => 0

/-- `unsent_reply`: text still missing from the thread. -/
def unsentReply (shown text : Str) : Option Str :=
  if shown = [] then some text
  else
    let rest :=
      if shown.isPrefixOf text then text.drop shown.length else text.drop (sharedLen shown text)
    if Str.trim rest = [] then none else some (Str.trim rest)

/-- The text that `show_final` delivers.  For a blank one it is what is on screen, and on an empty screen
    the notice that the turn ended without text. -/
def finalText (finished shown text : Str) : Str :=
  if isBlank text then if shown = [] then finished else shown else text

/-- The plain text that `show_final` sends without a stream. -/
def sendPlain (answers : Answers) (live : Live) (thread : Thread) (text : Str) :
    Except Str Unit × Live × Thread :=
  match unsentReply live.shown text with
  | none => (.ok (), live, thread)
  | some rest =>
    let called := { thread with calls := thread.calls + 1 }
    match answers thread.calls with
    | .error error => (.error error, live, called)
    | .ok ids =>
      (.ok (), { live with replyIds := ids.foldl (fun ids id => noteFinishId ids (some id) true) live.replyIds },
        { called with plain := called.plain ++ [rest] })

/-- `show_final`. -/
def showFinal (answers : Answers) (limit : Nat) (finished : Str) (reply : Live × Thread) (text : Str) :
    Except Str Unit × Live × Thread :=
  let text := finalText finished reply.1.shown text
  if reply.1.stream.isSome then
    match publish answers limit reply.1 reply.2 text true with
    | (.ok (), live, thread) => (.ok (), live, thread)
    | (.error _, live, thread) =>
      sendPlain answers { live with stream := none, broken := true } thread text
  else sendPlain answers reply.1 reply.2 text

/-! ## Runs -/

/-- The worker at the start, with the placeholder on the open stream. -/
def startReply (stream : Stream) (thinking : Str) : Live × Thread :=
  ({ stream := some stream, closed := 0, snapshot := thinking, shown := [], broken := false,
     replyIds := [] }, {})

/-- A sequence of previews. -/
def showPreviews (answers : Answers) (limit : Nat) (reply : Live × Thread) (texts : List Str) :
    Live × Thread :=
  texts.foldl (showPreview answers limit) reply

-- A reply past the limit closes its streams and opens the next ones.
example : framesFor 0 "Thinking".toList "abcdefghij".toList false 4 =
    { frames := [.update "abcd".toList true, .init "efgh".toList, .update "efgh".toList true,
        .init "ij".toList]
      closed := 2
      snapshot := "ij".toList } := by
  decide

end TeamClu.SeaTalk
